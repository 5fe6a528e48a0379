import Mathlib.Data.List.Forall2
import Mathlib.Data.List.Sort
import TrieStorage.Proofs.Manager.Backed
import TrieStorage.Proofs.Manager.Sealed

/-!
# What a manager leaves on disk

As long as no walk fails because of the disk, all that a manager reads can be told from the disk,
the numbers of its generations, and whether the old layout is usable.  Closing the manager and
whatever happens afterwards leave the disk as it is.  So a manager that is then put together over
the same stores, and that hears of the same epoch, reads what the first one has read; only the
mark of an active store may be new.
-/

namespace TrieStorage

/-! ## Reading from the disk -/

namespace Site

/-- The stores in the order in which they are read; of the old layout, while it is usable, these
are the primary one and the generations. -/
def readOrder (old : Option (List Nat)) : List Volume :=
  .main :: .checkpoints ::
    match old with
    | none => []
    | some ids => .db :: ids.reverse.map Volume.generation

/-- The first value under a key. -/
def lookup (site : Site) (disk : Disk) (old : Option (List Nat)) (key : Bytes) : Option Bytes :=
  (readOrder old).findSome? fun v => site.read disk v key

/-- Two disks that differ for readers at most in the marks of active stores. -/
structure Alike (site : Site) (disk disk' : Disk) : Prop where
  read : ∀ v key, key ≠ activeKey → site.read disk' v key = site.read disk v key
  shelves : ∀ n, site.Shelves disk' n ↔ site.Shelves disk n

namespace Alike

variable {site : Site} {disk disk' disk'' : Disk}

theorem refl (site : Site) (disk : Disk) : site.Alike disk disk :=
  ⟨fun _ _ _ => rfl, fun _ => Iff.rfl⟩

theorem trans (h : site.Alike disk disk') (h' : site.Alike disk' disk'') :
    site.Alike disk disk'' :=
  ⟨fun v key other => (h'.read v key other).trans (h.read v key other),
    fun n => (h'.shelves n).trans (h.shelves n)⟩

theorem lookup (h : site.Alike disk disk') (old : Option (List Nat)) {key : Bytes}
    (other : key ≠ activeKey) : site.lookup disk' old key = site.lookup disk old key := by
  unfold Site.lookup
  simp only [h.read _ _ other]

end Alike

end Site

theorem findSome?_of_forall₂ {α β γ : Type} {R : α → β → Prop} {f : α → Option γ}
    {g : β → Option γ} {as : List α} {bs : List β} (related : List.Forall₂ R as bs)
    (agree : ∀ a b, R a b → f a = g b) : as.findSome? f = bs.findSome? g := by
  induction related with
  | nil => rfl
  | cons first _ ih => rw [List.findSome?_cons, List.findSome?_cons, agree _ _ first, ih]

namespace Vault

/-- The numbers of the generations, while the old layout is usable. -/
def old (v : Vault) : Option (List Nat) :=
  if v.legacy.usable then some (v.legacy.generations.map Generation.id) else none

theorem Backed.lookup {site : Site} {looked : Bool} {v : Vault} (h : v.Backed site looked)
    (key : Bytes) : v.lookup key = site.lookup v.storage.disk v.old key := by
  have related : List.Forall₂ v.legacy.Stands v.readOrder (Site.readOrder v.old) := by
    refine .cons .main (.cons .checkpoints ?_)
    unfold Legacy.readOrder old
    by_cases usable : v.legacy.usable = true
    · rw [if_pos usable, if_pos usable]
      have active : v.legacy.phase = .active := by
        simp only [Legacy.usable, Bool.and_eq_true, decide_eq_true_eq] at usable
        exact usable.2
      refine .cons (.db active) ?_
      rw [← List.map_reverse, List.map_map, List.forall₂_map_left_iff, List.forall₂_map_right_iff,
        List.forall₂_same]
      intro g mem
      exact .generation (List.mem_reverse.1 mem)
    · rw [if_neg usable, if_neg usable]
      exact .nil
  rw [lookup_eq]
  exact findSome?_of_forall₂ related fun id w stand => h.storage.peek stand key

/-- Hearing of an epoch marks a store at most. -/
theorem Backed.alike_confirmEpoch {site : Site} {looked : Bool} {v : Vault}
    (h : v.Backed site looked) (closed : Bool) (epoch : Epoch) :
    site.Alike v.storage.disk (v.confirmEpoch closed epoch).storage.disk := by
  have fits : (LogRecord.put activeKey activeValue).Fits := by decide
  have told := confirmEpoch_induction
    (P := fun v' => v'.Backed site looked ∧ site.Alike v.storage.disk v'.storage.disk)
    ⟨h, .refl ..⟩ (fun _ h => ⟨h.1.disable, h.2⟩)
    (fun v₁ h => ⟨h.1.putInto fits .main, h.2.trans ?_⟩)
    (fun v₁ h => ⟨h.1.closeLegacy, h.2.trans ?_⟩) closed epoch
  · exact told.2
  · exact ⟨fun w key other => h.1.storage.read_change fits .main other.symm w,
      h.1.storage.shelves_change fits .main⟩
  · rw [v₁.closeLegacy_eq.2.1, (Legacy.closeLayers_frame ..).2.2]
    exact .refl ..

end Vault

namespace Manager

variable {site : Site} {m m' m₀ : Manager} {parts : Parts} {disk : Disk} {events : List Event}

/-! ## Putting a manager together -/

/-- The stores of parts are those of a site, on a disk. -/
structure Placed (site : Site) (parts : Parts) (disk : Disk) : Prop where
  archive : site.Archive disk
  db : ∃ store, parts.db = some store ∧ site.Synced disk .db store
  main : ∃ store, parts.main = some store ∧ site.Synced disk .main store
  checkpoints : ∃ store, parts.checkpoints = some store ∧ site.Synced disk .checkpoints store
  opens : parts.opener = some .logged
  path : parts.config.snapshotDb.path = some site.root
  drops : parts.config.keepSnapshots = false

theorem backed_compose (h : Placed site parts disk) (composed : compose parts disk [] = .ok m) :
    m.vault.Backed site false := by
  obtain ⟨db, main, checkpoints, _, _, _, _, _, hasDb, hasMain, hasCheckpoints, -, -, -, -, -, -,
    rfl⟩ := compose_eq_ok composed
  obtain ⟨_, own, syncedDb⟩ := h.db
  cases own.symm.trans hasDb
  obtain ⟨_, own, syncedMain⟩ := h.main
  cases own.symm.trans hasMain
  obtain ⟨_, own, syncedCheckpoints⟩ := h.checkpoints
  cases own.symm.trans hasCheckpoints
  refine ⟨h.opens, h.path, h.drops, ⟨rfl, h.archive, ?_, ?_, ?_, ?_⟩, fun no => by cases no⟩
  · intro id v stand
    cases stand with
    | main => exact ⟨_, rfl, syncedMain⟩
    | checkpoints => exact ⟨_, rfl, syncedCheckpoints⟩
    | db => exact ⟨_, rfl, syncedDb⟩
    | generation mem => cases mem
  · intro id id' v stand stand'
    cases stand with
    | generation mem => cases mem
    | _ => cases stand'; rfl
  · intro id layer found
    cases id with
    | main => exact .inl ⟨_, .main⟩
    | checkpoints => exact .inl ⟨_, .checkpoints⟩
    | db => exact .inl ⟨_, .db rfl⟩
    | generation serial => cases found
  · intro v fixed
    cases v with
    | main => exact syncedMain.founded
    | checkpoints => exact syncedCheckpoints.founded
    | db => exact syncedDb.founded
    | generation n => cases fixed

/-- A manager that is put together changes the disk by a mark at most. -/
theorem backed_assemble (h : Placed site parts disk) (made : assemble parts disk [] = .ok m) :
    m.vault.Backed site true ∧ site.Alike disk m.vault.storage.disk := by
  obtain ⟨n, composed, rfl, remains, -⟩ := assemble_cases made
  have start := backed_compose h composed
  have joined : n.joinHub.vault.Backed site false ∧
      site.Alike n.vault.storage.disk n.joinHub.vault.storage.disk := by
    simp only [joinHub, deliverEpochs_eq]
    refine Vault.deliveries_induction
      (P := fun v => v.Backed site false ∧ site.Alike n.vault.storage.disk v.storage.disk)
      ⟨start, .refl ..⟩ (fun v epoch so => ?_) _
    obtain ⟨backed, alike⟩ := so
    exact ⟨backed.confirmEpoch n.closed epoch,
      alike.trans (backed.alike_confirmEpoch n.closed epoch)⟩
  obtain ⟨_, _, _, _, _, _, _, _, -, -, -, -, -, -, -, -, -, rfl⟩ := compose_eq_ok composed
  obtain ⟨found, same⟩ := joined.1.discover (List.eq_nil_of_sublist_nil remains.generations)
  refine ⟨found, ?_⟩
  rw [discover, same]
  exact joined.2

/-! ## Steps -/

/-- No walk has failed because of the disk. -/
def Healthy (m : Manager) : Prop := ∀ w ∈ m.walks, w.phase ≠ .ended (.failed (.store .io))

theorem nextId_step {e : Event} (stepped : m.step? e = some m') :
    m.vault.legacy.nextId ≤ m'.vault.legacy.nextId := by
  cases e with
  | action a =>
    cases Option.some.inj stepped
    by_cases faultless : ∀ name list, a ≠ .setRefusals name list
    · exact Nat.le_of_eq (m.remains_act faultless).nextId.symm
    · simp only [not_forall, not_not] at faultless
      obtain ⟨name, list, rfl⟩ := faultless
      exact Nat.le_refl _
  | move mv =>
    rcases stored_move? stepped with ⟨remains, -⟩ | ⟨kind, vault⟩
    · exact Nat.le_of_eq remains.nextId.symm
    · rw [vault]
      rcases m.vault.target_cases kind with ⟨same, -⟩ | ⟨_, _, _, l', s', -, made, same, -⟩
      · rw [same]
      · rw [same]
        rcases Legacy.create_cases made with ⟨-, -, rfl, -⟩ | ⟨-, -, -, -, -, rfl, -⟩
        · exact Nat.le_refl _
        · exact Nat.le_succ _

end Manager

/-- What is asked of a manager while nothing is refused and it has not been closed, with values
that fit into a log. -/
def Action.IsOrdinary : Action → Prop
  | .put key value => (LogRecord.put key value).Fits
  | .setRefusals _ _ | .close => False
  | _ => True

instance : (a : Action) → Decidable a.IsOrdinary
  | .put key value => inferInstanceAs (Decidable (LogRecord.put key value).Fits)
  | .setRefusals _ _ | .close => inferInstanceAs (Decidable False)
  | .remove _ | .addDirty _ _ | .enterPruning | .exitPruning | .selectEpoch _ | .confirmEpoch _
  | .checkEpoch _ | .submit _ _ _ | .withdraw _ | .takeLeaf _ | .dropReader _ =>
    inferInstanceAs (Decidable True)

/-- An ordinary action, or a step of the manager's own. -/
def Event.IsOrdinary : Event → Prop
  | .action a => a.IsOrdinary
  | .move _ => True

instance : (e : Event) → Decidable e.IsOrdinary
  | .action a => inferInstanceAs (Decidable a.IsOrdinary)
  | .move _ => inferInstanceAs (Decidable True)

namespace Manager

variable {site : Site} {m m' m₀ : Manager} {parts : Parts} {disk : Disk} {events : List Event}

theorem backed_act (h : m.vault.Backed site true) {a : Action} (ordinary : a.IsOrdinary) :
    (m.act a).vault.Backed site true := by
  cases a with
  | put key value => exact h.putInto ordinary .main
  | remove hash => exact h.remove hash
  | addDirty root hashes => exact h.noteTracker _
  | selectEpoch epoch => exact h.selectEpoch epoch
  | confirmEpoch epoch => exact h.confirmEpoch m.closed epoch
  | checkEpoch epoch =>
    simp only [act, checkEpoch, deliverEpochs_eq]
    exact h.deliveries m.closed _
  | submit kind root sink =>
    rcases act_submit m kind root sink with ⟨-, same⟩ | ⟨-, same⟩
    · rw [same]
      exact h
    · rw [same]
      exact h.noteTracker _
  | setRefusals name list => exact ordinary.elim
  | close => exact ordinary.elim
  | _ => exact h

theorem backed_move (h : m.vault.Backed site true) (shelved : m.vault.Shelved) {mv : Move}
    (moved : m.move? mv = some m') (few : m'.vault.legacy.nextId ≤ Generation.idBound)
    (healthy : m'.Healthy) : m'.vault.Backed site true := by
  cases move?_walks moved with
  | still _ _ vault | launched _ _ _ _ vault | left _ _ _ _ vault _ =>
    rw [vault]
    exact h
  | @begun w found phase =>
    obtain ⟨vault, chosen⟩ := Walk.start_cases w m.vault
    have few : (w.start m.vault).2.legacy.nextId ≤ Generation.idBound := few
    show (w.start m.vault).2.Backed site true
    rw [vault] at few ⊢
    apply h.target shelved w.request.kind few
    intro failed
    -- the walk tells of the failure
    obtain ⟨e, same, told⟩ | ⟨same, -⟩ | ⟨_, same, -⟩ := chosen
    all_goals cases failed.symm.trans same
    refine healthy (w.start m.vault).1 ?_ (by rw [told]; rfl)
    refine List.mem_map.2 ⟨w, (walk?_eq_some found).1, if_pos ?_⟩
    rw [Walk.request_start]
  | @visited w target stack found phase => exact h.visit m.closed w target stack
  | sent _ _ _ | released _ _ => exact h

/-- What is asked of the manager in a run is ordinary, the disk never fails, and the numbers of
generations do not run out. -/
structure Smooth (m₀ : Manager) (events : List Event) (m : Manager) : Prop where
  ordinary : ∀ e ∈ events, e.IsOrdinary
  healthy : ∀ before m', before <+: events → m₀.run? before = some m' → m'.Healthy
  few : m.vault.legacy.nextId ≤ Generation.idBound

theorem smooth_iff : Smooth m₀ events m ↔ (∀ e ∈ events, e.IsOrdinary) ∧
    (∀ before ∈ events.inits, ∀ m' ∈ m₀.run? before, ∀ w ∈ m'.walks,
      w.phase ≠ .ended (.failed (.store .io))) ∧
    m.vault.legacy.nextId ≤ Generation.idBound := by
  constructor
  · rintro ⟨ordinary, healthy, few⟩
    refine ⟨ordinary, fun before mem m' ran => ?_, few⟩
    exact healthy before m' ((List.mem_inits ..).1 mem) ran
  · rintro ⟨ordinary, healthy, few⟩
    refine ⟨ordinary, fun before m' begins ran => ?_, few⟩
    exact healthy before ((List.mem_inits ..).2 begins) m' ran

instance : Decidable (Smooth m₀ events m) := decidable_of_iff _ smooth_iff.symm

/-- In every state that a manager reaches smoothly, all that it has is on disk. -/
theorem backed_of_run (h : Placed site parts disk) (made : assemble parts disk [] = .ok m₀)
    (ran : m₀.run? events = some m) (smooth : Smooth m₀ events m) : m.vault.Backed site true := by
  revert smooth
  refine run?_induction (P := fun events m => Smooth m₀ events m → m.vault.Backed site true)
    (fun _ => (backed_assemble h made).1) (fun {before n e n'} reached ih stepped smooth => ?_) ran
  have few := nextId_step stepped
  have backed := ih ⟨fun e mem => smooth.ordinary e (List.mem_append_left _ mem),
    fun front n' begins => smooth.healthy front n' (begins.trans (List.prefix_append ..)),
    few.trans smooth.few⟩
  cases e with
  | action a =>
    cases Option.some.inj stepped
    exact backed_act backed (smooth.ordinary (.action a) (by simp))
  | move mv =>
    exact backed_move backed (Tended.of_run made reached).shelved stepped smooth.few
      (smooth.healthy _ n' List.prefix_rfl (run?_concat.2 ⟨n, reached, stepped⟩))

/-! ## Closing -/

theorem Smooth.opened (smooth : Smooth m₀ events m) (made : assemble parts disk [] = .ok m₀)
    (ran : m₀.run? events = some m) : m.closed = false := by
  obtain ⟨_, _, _, rfl⟩ := assemble_eq_ok made
  have unclosed : .action .close ∉ events := smooth.ordinary (.action .close)
  simpa [unclosed] using closed_run ran

/-- Closing a manager that has nothing but what is on disk leaves the disk as it is, and so does
whatever happens afterwards. -/
theorem disk_after_close (h : Placed site parts disk) (made : assemble parts disk [] = .ok m₀)
    (ran : m₀.run? events = some m) (smooth : Smooth m₀ events m) {later : List Event}
    (ended : m.close.2.run? later = some m') :
    m'.vault.storage.disk = m.vault.storage.disk := by
  have backed := backed_of_run h made ran smooth
  obtain ⟨closing, barred⟩ := ended_close made ran (smooth.opened made ran)
  have storage : m.close.2.vault.storage =
      (Legacy.closeLayers (.ok ()) (m.vault.unclosed false) m.vault.storage).2 := by
    rw [closing]
    exact m.vault.close_eq.2.1
  have shut : m.close.2.vault.storage.main.store.IsShut := by
    rw [storage]
    have closed := backed.storage.closeLayers (.ok ()) (m.vault.unclosed false)
    rcases closed.shut .main _ rfl with ⟨v, left, -⟩ | shut
    · simp [Vault.unclosed] at left
    · exact shut
  have sealed : m.close.2.Sealed := ⟨by rw [closing], barred, shut⟩
  rw [(sealed.unchanged_run ended).disk, storage, (Legacy.closeLayers_frame ..).2.2]

/-! ## Another manager over the same stores -/

/-- Two vaults with the same settings that have heard of the same epochs, in any number, and are
both closed or both open. -/
theorem usable_eq {v v' : Vault} {shut : Bool} {epochs epochs' : List Epoch}
    (h : v.Migrated shut epochs) (h' : v'.Migrated shut epochs')
    (config : v'.config = v.config) (same : ∀ epoch, epoch ∈ epochs' ↔ epoch ∈ epochs) :
    v'.legacy.usable = v.legacy.usable ∧ (v.legacy.usable = true ↔
      v.legacy.disabled = false ∧ shut = false) := by
  have disabled : v'.legacy.disabled = v.legacy.disabled := by
    rw [Bool.eq_iff_iff, h.disabled, h'.disabled]
    unfold Vault.retires
    simp only [config, same]
  have usable {v : Vault} {epochs : List Epoch} (h : v.Migrated shut epochs) :
      v.legacy.usable = true ↔ v.legacy.disabled = false ∧ shut = false := by
    rw [h.usable_iff, ne_eq, h.closed_iff, not_or]
    simp
  refine ⟨?_, usable h⟩
  rw [Bool.eq_iff_iff, usable h, usable h', disabled]

/-- A manager that is put together anew over what another one has left finds what that one has
found, and has its generations. -/
theorem reads_again {m₁ m₂ : Manager} {parts' : Parts} (h : Placed site parts disk)
    (made : assemble parts disk [] = .ok m₀) (ran : m₀.run? events = some m₁)
    (smooth : Smooth m₀ events m₁)
    (heard : ∀ epoch ∈ events.flatMap Event.confirmed, epoch ∈ parts.heard)
    (h' : Placed site parts' m₁.vault.storage.disk)
    (made' : assemble parts' m₁.vault.storage.disk [] = .ok m₂)
    (config : parts'.config = parts.config) (epochs : parts'.heard = parts.heard) :
    (∀ key, key ≠ activeKey → m₂.get key = m₁.get key) ∧
      (m₁.vault.legacy.disabled = false → m₂.vault.legacy.generations.map Generation.id =
        m₁.vault.legacy.generations.map Generation.id) := by
  have backed := backed_of_run h made ran smooth
  obtain ⟨backed', alike⟩ := backed_assemble h' made'
  have opened' : m₂.closed = false := by
    obtain ⟨_, _, _, rfl⟩ := assemble_eq_ok made'
    rfl
  have migrated := (migrated_of_run made ran).vault
  have migrated' := (migrated_assemble made').vault
  rw [smooth.opened made ran] at migrated
  rw [opened'] at migrated'
  obtain ⟨usable, usable_iff⟩ := usable_eq migrated migrated'
    (by rw [config_run ran, config_assemble made, config_assemble made', config])
    fun epoch => by
      rw [epochs, List.mem_append]
      exact (or_iff_left_of_imp (heard epoch)).symm
  have ids (usable₁ : m₁.vault.legacy.usable = true) :
      m₂.vault.legacy.generations.map Generation.id =
        m₁.vault.legacy.generations.map Generation.id := by
    have archived := backed.shelved rfl usable₁
    have archived' := backed'.shelved rfl (usable.trans usable₁)
    refine List.Pairwise.eq_of_mem_iff (r := (· < ·)) (List.pairwise_map.2 archived'.ascending)
      (List.pairwise_map.2 archived.ascending) fun {n} => ?_
    rw [List.mem_map, List.mem_map, ← archived'.listed, ← archived.listed]
    exact alike.shelves n
  have old : m₂.vault.old = m₁.vault.old := by
    unfold Vault.old
    rw [usable]
    split
    · next usable₁ => rw [ids usable₁]
    · rfl
  refine ⟨fun key other => ?_, fun enabled => ids (usable_iff.2 ⟨enabled, rfl⟩)⟩
  unfold Manager.get Vault.get
  rw [backed.lookup, backed'.lookup, old, alike.lookup _ other]

end Manager

end TrieStorage

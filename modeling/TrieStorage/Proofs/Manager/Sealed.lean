import TrieStorage.Proofs.Manager.MainStore
import TrieStorage.Proofs.Storage.Shut

/-!
# After closing

Closing ends no walk and stops no caller, so steps of all kinds may follow it.  None of
them finds anything to write to: walks are told that the manager is closed before they copy,
the old layout makes no generation any more, epochs are only taken note of, and the main store,
which takes the puts of callers, has been closed.  For this the main store must not be split by
epoch: a partition that is made later is open.
-/

namespace TrieStorage

/-! ## Stores with one door -/

namespace Store

/-- The store is not split by epoch. -/
def Whole : Store → Prop
  | .partitioned _ => False
  | _ => True

theorem stable_whole : Store.Stable Whole := by
  refine ⟨fun {s} h _ _ _ => ?_, fun {s} h _ _ => ?_, fun {s} h => ?_, fun {s} h _ => ?_⟩
  all_goals
    cases s with
    | partitioned s => exact h
    | _ => trivial

theorem Whole.isShut_close {s : Store} (whole : s.Whole) (closes : s.close.1 = .ok ()) :
    s.close.2.IsShut := by
  cases s with
  | memory s => rfl
  | logged s =>
    cases open_ : s.log with
    | none =>
      simp only [close, LoggedStore.close, open_] at closes
      cases closes
    | some id => simp only [close, LoggedStore.close, open_, IsShut]
  | partitioned s => exact whole.elim

end Store

namespace Layer

variable {layer : Layer}

theorem isShut_close {refusals : Refusals} (whole : layer.store.Whole)
    (closes : (layer.close refusals).1 = .ok ()) : (layer.close refusals).2.store.IsShut := by
  unfold close at closes ⊢
  dsimp only at closes ⊢
  split at closes
  · cases closes
  · next allowed =>
    rw [if_neg allowed]
    exact whole.isShut_close closes

end Layer

/-! ## What stays as it is -/

namespace Vault

/-- Nothing of what is stored has changed: neither the disk nor any store that has been opened,
and none has been opened or left the list of generations. -/
structure Unchanged (v v' : Vault) : Prop where
  disk : v'.storage.disk = v.storage.disk
  stores : ∀ id, (v'.storage.layer? id).map Layer.store = (v.storage.layer? id).map Layer.store
  generations : v'.legacy.generations = v.legacy.generations

namespace Unchanged

variable {v v' v'' : Vault}

theorem refl (v : Vault) : v.Unchanged v := ⟨rfl, fun _ => rfl, rfl⟩

theorem trans (h : v.Unchanged v') (h' : v'.Unchanged v'') : v.Unchanged v'' :=
  ⟨h'.disk.trans h.disk, fun id => (h'.stores id).trans (h.stores id),
    h'.generations.trans h.generations⟩

theorem main (h : v.Unchanged v') : v'.storage.main.store = v.storage.main.store :=
  Option.some.inj (h.stores .main)

/-- A change of the main layer that leaves its store and the disk alone. -/
theorem of_main {main : Layer} {disk : Disk} (store : main.store = v.storage.main.store)
    (names : disk = v.storage.disk) (tracker : Tracker) :
    v.Unchanged { v with storage := { v.storage with disk, main }, tracker } := by
  refine ⟨names, fun id => ?_, rfl⟩
  cases id with
  | main => exact congrArg some store
  | _ => rfl

end Unchanged

variable {v : Vault}

theorem unchanged_noteEpoch (epoch : Epoch) : v.Unchanged (v.noteEpoch epoch) := by
  unfold noteEpoch
  split
  · exact ⟨rfl, fun _ => rfl, rfl⟩
  · exact .refl v

theorem unchanged_deliveries (deliveries : List (Unit × Epoch)) :
    v.Unchanged (deliveries.foldl (fun v d => v.confirmEpoch true d.2) v) := by
  refine deliveries_induction (P := v.Unchanged) (.refl v) (fun v' epoch h => ?_) deliveries
  exact h.trans (v'.unchanged_noteEpoch epoch)

theorem lastFailure_eq_ok {first second : Except StoreError Unit}
    (h : lastFailure first second = .ok ()) : first = .ok () ∧ second = .ok () := by
  cases second with
  | ok _ => exact ⟨h, rfl⟩
  | error e => cases h

/-- A main store that has been closed without a failure is shut. -/
theorem isShut_close (whole : v.storage.main.store.Whole) (closes : v.close.1 = .ok ()) :
    v.close.2.storage.main.store.IsShut := by
  have whole : v.closeLegacy.2.storage.main.store.Whole := by
    rw [v.closeLegacy_eq.2.1]
    exact Store.stable_whole.layer.closeLayers whole _ _
  have answered : (lastFailure (lastFailure v.closeLegacy.1
      (v.closeLegacy.2.storage.close .main).1)
      ((v.closeLegacy.2.storage.close .main).2.close .checkpoints).1).mapError
        ManagerError.closeFailed = .ok () := closes
  have main : (v.closeLegacy.2.storage.close .main).1 = .ok () := by
    cases last : lastFailure (lastFailure v.closeLegacy.1
        (v.closeLegacy.2.storage.close .main).1)
        ((v.closeLegacy.2.storage.close .main).2.close .checkpoints).1 with
    | error e =>
      rw [last] at answered
      cases answered
    | ok _ => exact (lastFailure_eq_ok (lastFailure_eq_ok last).1).2
  exact Layer.isShut_close whole main

end Vault

theorem Walk.visit_of_closed (w : Walk) (v : Vault) (target : LayerId) (stack : List NodeHash) :
    (w.visit true v target stack).2 = v := by
  cases stack <;> rfl

/-! ## Steps of a closed manager -/

namespace Manager

variable {m m' m₀ : Manager} {parts : Parts} {disk : Disk} {refusals : Refusals}
  {events more : List Event}

/-- The manager has been closed, and with it whatever it might write to. -/
structure Sealed (m : Manager) : Prop where
  closed : m.closed = true
  barred : m.vault.legacy.usable = false
  shut : m.vault.storage.main.store.IsShut

theorem Sealed.unchanged_act (h : m.Sealed) (a : Action) : m.vault.Unchanged (m.act a).vault := by
  cases a with
  | put key value =>
    have same := Layer.put_of_isShut h.shut m.vault.storage.refusals m.vault.storage.disk key value
    exact .of_main same.1 same.2 _
  | remove hash =>
    have same := Layer.remove_of_isShut h.shut m.vault.storage.refusals m.vault.storage.disk
      hash.bytes
    exact .of_main same.1 same.2 _
  | selectEpoch epoch => exact .of_main (h.shut.selectEpoch epoch) rfl _
  | confirmEpoch epoch =>
    simp only [act, confirmEpoch, h.closed]
    exact Vault.unchanged_noteEpoch epoch
  | checkEpoch epoch =>
    simp only [act, checkEpoch, deliverEpochs_eq, h.closed]
    exact Vault.unchanged_deliveries _
  | submit kind root sink =>
    rcases act_submit m kind root sink with ⟨-, same⟩ | ⟨-, same⟩
    all_goals
      rw [same]
      exact ⟨rfl, fun _ => rfl, rfl⟩
  | close =>
    simp only [act, close, h.closed, if_true]
    exact .refl _
  | setRefusals name list => exact ⟨rfl, fun id => by cases id <;> rfl, rfl⟩
  | _ => exact ⟨rfl, fun _ => rfl, rfl⟩

theorem Sealed.unchanged_move (h : m.Sealed) {mv : Move} (moved : m.move? mv = some m') :
    m'.vault = m.vault := by
  cases move?_walks moved with
  | still _ _ vault | launched _ _ _ _ vault | left _ _ _ _ vault _ => exact vault
  | @begun w _ _ =>
    exact (Walk.start_cases w m.vault).1.trans (Vault.target_of_barred h.barred w.request.kind)
  | @visited w target stack _ _ =>
    rw [h.closed]
    exact w.visit_of_closed m.vault target stack
  | sent _ _ _ | released _ _ => rfl

theorem Sealed.step (h : m.Sealed) {e : Event} (stepped : m.step? e = some m') :
    m'.Sealed ∧ m.vault.Unchanged m'.vault := by
  have unchanged : m'.closed = true ∧ m.vault.Unchanged m'.vault := by
    cases e with
    | action a =>
      cases Option.some.inj stepped
      exact ⟨(closed_act m a).2 (.inl h.closed), h.unchanged_act a⟩
    | move mv =>
      rw [h.unchanged_move stepped]
      exact ⟨(move?_frame stepped).1.trans h.closed, .refl _⟩
  refine ⟨⟨unchanged.1, (barred_step h.barred stepped).1, ?_⟩, unchanged.2⟩
  rw [unchanged.2.main]
  exact h.shut

theorem Sealed.unchanged_run (h : m.Sealed) (ran : m.run? more = some m') :
    m.vault.Unchanged m'.vault := by
  have both : m'.Sealed ∧ m.vault.Unchanged m'.vault := by
    refine run?_induction (P := fun _ m' => m'.Sealed ∧ m.vault.Unchanged m'.vault)
      ⟨h, .refl _⟩ (fun _ ih stepped => ?_) ran
    obtain ⟨still, next⟩ := ih.1.step stepped
    exact ⟨still, ih.2.trans next⟩
  exact both.2

/-- A manager that has been closed knows it, and its old layout is out of use. -/
theorem ended_close (made : assemble parts disk refusals = .ok m₀) (ran : m₀.run? events = some m)
    (opened : m.closed = false) :
    m.close = (m.vault.close.1, { m with vault := m.vault.close.2, closed := true }) ∧
      m.close.2.vault.legacy.usable = false := by
  have closing : m.close =
      (m.vault.close.1, { m with vault := m.vault.close.2, closed := true }) := by
    rw [close, if_neg (by simp [opened])]
  have last : m₀.run? (events ++ [.action .close]) = some m.close.2 :=
    run?_concat.2 ⟨m, ran, rfl⟩
  have migrated := (migrated_of_run made last).vault
  have ended : m.close.2.closed = true := by rw [closing]
  have closed := migrated.closed_iff.2 (.inr ended)
  exact ⟨closing, by simpa [closed] using migrated.usable_iff⟩

theorem sealed_close (whole : ∀ store, parts.main = some store → store.Whole)
    (made : assemble parts disk refusals = .ok m₀) (ran : m₀.run? events = some m)
    (opened : m.closed = false) (closes : m.close.1 = .ok ()) : m.close.2.Sealed := by
  obtain ⟨closing, barred⟩ := ended_close made ran opened
  refine ⟨by rw [closing], barred, ?_⟩
  rw [closing] at closes ⊢
  exact Vault.isShut_close (Store.stable_whole.of_run whole made ran) closes

/-- A manager whose main store is not split by epoch, and that has been closed without a
failure, never writes: no run from there on, of walks, of the dispatcher and of callers in any
order, changes the disk or any store, or opens a generation. -/
theorem closed_never_writes (whole : ∀ store, parts.main = some store → store.Whole)
    (made : assemble parts disk refusals = .ok m₀) (ran : m₀.run? events = some m)
    (opened : m.closed = false) (closes : m.close.1 = .ok ())
    (later : m.close.2.run? more = some m') : m.close.2.vault.Unchanged m'.vault :=
  (sealed_close whole made ran opened closes).unchanged_run later

/-- A walk that copies and another that has been admitted go on after closing, and callers
put, remove, submit requests and confirm epochs. -/
def lateSteps : List Event :=
  [.move (.begin 1), .action (.put [107] [49]), .move (.visit 0), .action (.remove Walk.leafHash),
    .action (.submit .checkpoint Walk.leafHash none), .move (.release 0),
    .action (.selectEpoch 7), .action (.checkEpoch 7), .action (.confirmEpoch 4294967295),
    .action .close, .move (.release 1)]

theorem overtakenRun_never_writes : ∃ m m', runFrom oneGeneration {} overtakenRun = some m ∧
    m.close.2.run? lateSteps = some m' ∧ m.close.2.vault.Unchanged m'.vault ∧
    m'.vault.storage.main.puts = m.vault.storage.main.puts + 1 := by
  have evaluated : ∃ m, runFrom oneGeneration {} overtakenRun = some m ∧
      (m.closed = false ∧ m.close.1 = .ok () ∧
        (m.close.2.run? lateSteps).any (fun m' =>
          m'.vault.storage.main.puts = m.vault.storage.main.puts + 1) = true) :=
    exists_of_runFrom (by decide +kernel)
  obtain ⟨m, ran, opened, closes, counted⟩ := evaluated
  obtain ⟨m', later, puts⟩ := (Option.any_eq_true _ _).1 counted
  obtain ⟨m₀, made, ran'⟩ := of_runFrom ran
  have whole (store : Store) (given : oneGeneration.main = some store) : store.Whole := by
    cases given
    trivial
  exact ⟨m, m', ran, later, closed_never_writes whole made ran' opened closes later,
    of_decide_eq_true puts⟩

end Manager

end TrieStorage

import TrieStorage.Proofs.Generation.Growth
import TrieStorage.Proofs.Manager.Actions
import TrieStorage.Proofs.Manager.Moves
import TrieStorage.Proofs.Walk.Solo

/-!
# The generations of a manager

Only a walk that chooses where to copy makes a generation; everything else at
most lets go of some.  So in every state that a manager reaches its generations
are arranged, and its settings are the ones it was put together with.
-/

namespace TrieStorage

namespace Storage

theorem length_opened_remove (s : Storage) (id : LayerId) (key : Bytes) :
    (s.remove id key).2.opened.length = s.opened.length := by
  unfold remove
  split
  · rfl
  · exact length_opened_setLayer ..

theorem refusals_remove (s : Storage) (id : LayerId) (key : Bytes) :
    (s.remove id key).2.refusals = s.refusals := by
  unfold remove
  split
  · rfl
  · exact refusals_setLayer ..

theorem opened_close (s : Storage) {id : LayerId} (other : ∀ serial, id ≠ .generation serial) :
    (s.close id).2.opened = s.opened := by
  rcases s.close_cases id with same | ⟨layer, same⟩
  · rw [same]
  · rw [same]
    cases id with
    | generation serial => exact absurd rfl (other serial)
    | _ => rfl

end Storage

namespace Vault

/-! ## Changes that make no generation -/

/-- A change that keeps the settings, and at most lets go of generations; if the
old layout may still grow, it lets go of none. -/
structure Keeps (v v' : Vault) : Prop where
  config : v'.config = v.config
  generations : v'.legacy.generations.Sublist v.legacy.generations
  opened : v.storage.opened.length ≤ v'.storage.opened.length
  usable : v'.legacy.usable = true → v'.legacy = v.legacy ∧ v.storage.Tends v'.storage

namespace Keeps

variable {v v' v'' : Vault}

theorem refl (v : Vault) : v.Keeps v :=
  ⟨rfl, .refl _, Nat.le_refl _, fun _ => ⟨rfl, .refl _⟩⟩

theorem trans (h : v.Keeps v') (h' : v'.Keeps v'') : v.Keeps v'' := by
  refine ⟨h'.config.trans h.config, h'.generations.trans h.generations,
    Nat.le_trans h.opened h'.opened, fun usable => ?_⟩
  obtain ⟨same', tends'⟩ := h'.usable usable
  rw [same'] at usable
  obtain ⟨same, tends⟩ := h.usable usable
  exact ⟨same'.trans same, tends.trans tends'⟩

end Keeps

/-- A change that also opens no store, and keeps all names on the disk, what is refused,
and the number of the next generation. -/
structure Remains (v v' : Vault) : Prop extends Keeps v v' where
  noneOpened : v'.storage.opened.length = v.storage.opened.length
  opener : v'.opener = v.opener
  nextId : v'.legacy.nextId = v.legacy.nextId
  refusals : v'.storage.refusals = v.storage.refusals
  names : v.storage.disk.SameNames v'.storage.disk

namespace Remains

variable {v v' v'' : Vault}

theorem refl (v : Vault) : v.Remains v := ⟨.refl v, rfl, rfl, rfl, rfl, .refl _⟩

theorem trans (h : v.Remains v') (h' : v'.Remains v'') : v.Remains v'' :=
  ⟨h.toKeeps.trans h'.toKeeps, h'.noneOpened.trans h.noneOpened, h'.opener.trans h.opener,
    h'.nextId.trans h.nextId, h'.refusals.trans h.refusals, h.names.trans h'.names⟩

theorem of_storage {storage : Storage}
    (opened : storage.opened.length = v.storage.opened.length)
    (tends : v.storage.Tends storage) (refusals : storage.refusals = v.storage.refusals)
    (names : v.storage.disk.SameNames storage.disk) (tracker : Tracker) :
    v.Remains { v with storage, tracker } :=
  ⟨⟨rfl, .refl _, Nat.le_of_eq opened.symm, fun _ => ⟨rfl, tends⟩⟩, opened, rfl, rfl, refusals,
    names⟩

theorem of_tracker (v : Vault) (tracker : Tracker) : v.Remains { v with tracker } :=
  .of_storage rfl (.refl _) rfl (.refl _) tracker

end Remains

section

variable (v : Vault)

theorem remains_putInto (id : LayerId) (key value : Bytes) :
    v.Remains (v.putInto id key value).2 :=
  .of_storage (v.storage.length_opened_put id key value) (v.storage.tends_put id key value)
    (v.storage.refusals_put id key value) (v.storage.sameNames_put id key value) _

theorem remains_remove (hash : NodeHash) : v.Remains (v.remove hash).2 :=
  .of_storage (v.storage.length_opened_remove .main hash.bytes)
    (v.storage.tends_remove_main hash.bytes) (v.storage.refusals_remove .main hash.bytes)
    (v.storage.sameNames_remove .main hash.bytes) _

theorem remains_closeLegacy : v.Remains v.closeLegacy.2 := by
  unfold closeLegacy Legacy.close
  by_cases active : v.legacy.phase = .active
  · rw [if_pos active]
    obtain ⟨opened, refusals, disk⟩ := Legacy.closeLayers_frame (.ok ()) v.storage
      (.db :: v.legacy.generations.map Generation.layer)
    refine ⟨⟨rfl, List.nil_sublist _, Nat.le_of_eq opened.symm, fun usable => ?_⟩, opened, rfl, rfl,
      refusals, ?_⟩
    · simp [Legacy.usable] at usable
    · dsimp only
      rw [disk]
      exact .refl _
  · rw [if_neg active]
    exact .refl v

theorem legacy_closeLegacy : v.closeLegacy.2.legacy =
    if v.legacy.phase = .active then { v.legacy with phase := .closed, generations := [] }
    else v.legacy := by
  unfold closeLegacy Legacy.close
  by_cases active : v.legacy.phase = .active
  · rw [if_pos active, if_pos active]
  · rw [if_neg active, if_neg active]

theorem legacy_noteEpoch (epoch : Epoch) : (v.noteEpoch epoch).legacy =
    if v.retires epoch then { v.legacy with disabled := true } else v.legacy := by
  unfold noteEpoch
  split <;> rfl

/-- Confirming an epoch changes the old layout only by disabling it. -/
theorem legacy_confirmEpoch {closed : Bool} {epoch : Epoch}
    (enabled : (v.confirmEpoch closed epoch).legacy.disabled = false) :
    (v.confirmEpoch closed epoch).legacy = v.legacy := by
  have noted (enabled : (v.noteEpoch epoch).legacy.disabled = false) :
      (v.noteEpoch epoch).legacy = v.legacy := by
    rw [legacy_noteEpoch] at enabled ⊢
    split
    · next retires =>
      rw [if_pos retires] at enabled
      cases enabled
    · rfl
  unfold confirmEpoch at enabled ⊢
  dsimp only at enabled ⊢
  split
  · next shut =>
    rw [if_pos shut] at enabled
    exact noted enabled
  · next open_ =>
    rw [if_neg open_] at enabled
    split
    · next disabled =>
      -- closing the old layout leaves it disabled
      rw [if_pos disabled, legacy_closeLegacy] at enabled
      split at enabled
      all_goals
        rw [disabled] at enabled
        cases enabled
    · next still =>
      rw [if_neg still] at enabled
      exact noted enabled

theorem remains_confirmEpoch (closed : Bool) (epoch : Epoch) :
    v.Remains (v.confirmEpoch closed epoch) := by
  refine confirmEpoch_induction (P := v.Remains) (.refl v) (fun v' h => h.trans ?_)
    (fun v' h => h.trans (v'.remains_putInto .main activeKey activeValue))
    (fun v' h => h.trans v'.remains_closeLegacy) closed epoch
  refine ⟨⟨rfl, .refl _, Nat.le_refl _, fun usable => ?_⟩, rfl, rfl, rfl, rfl, .refl _⟩
  simp [Legacy.usable] at usable

theorem remains_closeLayer (answer : Except StoreError Unit) {id : LayerId}
    (other : ∀ serial, id ≠ .generation serial) : v.Remains (v.closeLayer answer id).2 := by
  have names : v.storage.disk.SameNames (v.storage.close id).2.disk := by
    rw [v.storage.disk_close id]
    exact .refl _
  exact .of_storage (v.storage.length_opened_close id)
    (.of_opened names.more (v.storage.opened_close other)) (v.storage.refusals_close id) names _

theorem remains_close : v.Remains v.close.2 := by
  have others : (∀ serial, LayerId.main ≠ .generation serial) ∧
      ∀ serial, LayerId.checkpoints ≠ .generation serial := by simp
  have main := v.closeLegacy.2.remains_closeLayer v.closeLegacy.1 others.1
  have last := (v.closeLegacy.2.closeLayer v.closeLegacy.1 .main).2.remains_closeLayer
    (v.closeLegacy.2.closeLayer v.closeLegacy.1 .main).1 others.2
  exact (v.remains_closeLegacy.trans main).trans last

theorem remains_noteCopied (kind : RequestKind) (hash : NodeHash) :
    v.Remains (Walk.noteCopied v kind hash) := by
  cases kind with
  | snapshot => exact .refl v
  | checkpoint => exact .of_tracker v _

theorem remains_visit (closed : Bool) (w : Walk) (target : LayerId) (stack : List NodeHash) :
    v.Remains (w.visit closed v target stack).2 := by
  have visited := Walk.visited closed w v target stack
  generalize w.visit closed v target stack = next at visited ⊢
  obtain ⟨w', v'⟩ := next
  simp only at visited
  cases visited with
  | @unwritten hash _ encoded _ _ _ _ _ _ written =>
    have put := v.remains_putInto target hash.bytes encoded
    rw [written] at put
    exact put
  | @copied hash _ encoded _ v₁ _ _ _ written =>
    have put := v.remains_putInto target hash.bytes encoded
    rw [written] at put
    exact put.trans (v₁.remains_noteCopied ..)
  | _ => exact .refl v

end

/-! ## Changes that may make one -/

theorem growth?_eq_some {v : Vault} {root : String} {opener : Opener} :
    v.growth? = some (root, opener) ↔
      v.legacy.usable = true ∧ v.config.snapshotDb.path = some root ∧ v.opener = some opener := by
  unfold growth?
  by_cases usable : v.legacy.usable = true
  · rw [if_pos usable]
    cases v.config.snapshotDb.path <;> cases v.opener <;> simp [usable]
  · simp [usable]

/-- Where a copy goes: to where there is something already, or to the generation
that is made for it. -/
theorem target_cases (v : Vault) (kind : RequestKind) :
    ((v.target kind).2 = v ∧
      ∀ serial, (v.target kind).1 = .ok (some (.generation serial)) →
        ∃ root opener g, v.growth? = some (root, opener) ∧
          v.legacy.generations.getLast? = some g ∧ g.layer = .generation serial) ∨
    ∃ root opener answer l' s', v.growth? = some (root, opener) ∧
      v.legacy.create root opener v.retention v.storage = (answer, l', s') ∧
      (v.target kind).2 = { v with legacy := l', storage := s' } ∧
      ∀ id, (v.target kind).1 = .ok (some id) → answer = .ok id := by
  cases grows : v.growth? with
  | none =>
    left
    cases kind with
    | snapshot =>
      simp only [Vault.target, snapshotStore, grows, Except.map]
      refine ⟨trivial, fun serial chosen => ?_⟩
      split at chosen <;> cases chosen
    | checkpoint =>
      simp only [Vault.target, checkpointStore, grows]
      exact ⟨trivial, fun serial chosen => by cases chosen⟩
  | some place =>
    obtain ⟨root, opener⟩ := place
    rcases made : v.legacy.create root opener v.retention v.storage with ⟨answer, l', s'⟩
    cases kind with
    | snapshot =>
      right
      refine ⟨root, opener, answer, l', s', rfl, made, ?_, fun id chosen => ?_⟩
      · simp only [Vault.target, snapshotStore, grows, made]
      · simp only [Vault.target, snapshotStore, grows, made] at chosen
        cases answer with
        | error e => cases chosen
        | ok own =>
          simp only [Except.map, Except.ok.injEq] at chosen
          split at chosen
          · cases chosen
            rfl
          · cases chosen
    | checkpoint =>
      simp only [Vault.target, checkpointStore, grows, Legacy.latest]
      cases last : v.legacy.generations.getLast? with
      | some g =>
        left
        refine ⟨rfl, fun serial chosen => ⟨root, opener, g, rfl, rfl, ?_⟩⟩
        simpa [Except.map] using chosen
      | none =>
        right
        refine ⟨root, opener, answer, l', s', rfl, made, ?_, fun id chosen => ?_⟩
        · simp only [made]
        · simp only [made] at chosen
          cases answer with
          | error e => cases chosen
          | ok own =>
            cases chosen
            rfl

/-- A choice where to copy lists no other generation than one that is made for it. -/
theorem exists_create_of_target {v : Vault} {kind : RequestKind} {g : Generation}
    (listed : g ∈ (v.target kind).2.legacy.generations) (new : g ∉ v.legacy.generations) :
    ∃ root opener id l' s', v.growth? = some (root, opener) ∧
      v.legacy.create root opener v.retention v.storage = (.ok id, l', s') ∧
      (v.target kind).2 = { v with legacy := l', storage := s' } ∧
      l'.nextId = v.legacy.nextId + 1 ∧ g = v.legacy.next root v.storage := by
  rcases v.target_cases kind with ⟨same, -⟩ | ⟨root, opener, answer, l', s', grows, made, same, -⟩
  · rw [same] at listed
    exact absurd listed new
  · have listed : g ∈ l'.generations := by
      rw [same] at listed
      exact listed
    rcases Legacy.create_cases made with ⟨-, -, rfl, -⟩ | ⟨_, _, -, -, rfl, rfl, -⟩
    · exact absurd listed new
    · refine ⟨root, opener, _, _, s', grows, made, same, rfl, ?_⟩
      rcases List.mem_append.1 (List.mem_of_mem_drop listed) with old | own
      · exact absurd old new
      · exact List.mem_singleton.1 own

/-! ## The arrangement -/

/-- The settings are usable, and the generations are arranged. -/
structure Arranged (v : Vault) : Prop where
  valid : v.config.complaint? = none
  legacy : v.legacy.Arranged v.storage

namespace Arranged

variable {v v' : Vault}

theorem keeps (h : v.Arranged) (kept : v.Keeps v') : v'.Arranged := by
  refine ⟨?_, h.legacy.mono kept.generations kept.opened⟩
  rw [kept.config]
  exact h.valid

theorem pos (h : v.Arranged) : 0 < v.retention.max := by
  have valid := h.valid
  unfold Config.complaint? at valid
  split at valid
  · cases valid
  · split at valid
    · cases valid
    · split at valid
      · cases valid
      · next some_ => exact Nat.pos_of_ne_zero some_

theorem target (h : v.Arranged) (kind : RequestKind) : (v.target kind).2.Arranged := by
  rcases v.target_cases kind with ⟨same, -⟩ | ⟨root, opener, answer, l', s', -, made, same, -⟩
  · rw [same]
    exact h
  · rw [same]
    exact ⟨h.valid, h.legacy.create made⟩

theorem discover (h : v.Arranged) : v.discover.Arranged := by
  unfold Vault.discover
  split
  · exact h
  · exact ⟨h.valid, Discovery.arranged_run v.legacy⟩

end Arranged

end Vault

namespace Manager

variable {m m' : Manager}

/-- What is stored changes by choosing where to copy, or in a way that makes no
generation. -/
theorem stored_move? {mv : Move} (moved : m.move? mv = some m') :
    (m.vault.Remains m'.vault ∧ m'.vault.legacy = m.vault.legacy) ∨
      ∃ kind, m'.vault = (m.vault.target kind).2 := by
  cases move?_walks moved with
  | still _ _ vault | launched _ _ _ _ vault | left _ _ _ _ vault _ =>
    rw [vault]
    exact .inl ⟨.refl _, rfl⟩
  | @begun w _ _ => exact .inr ⟨w.request.kind, (Walk.start_cases w m.vault).1⟩
  | @visited w target stack _ _ =>
    exact .inl ⟨m.vault.remains_visit .., (Walk.alike_visit m.closed w m.vault target stack).legacy⟩
  | sent _ _ _ | released _ _ => exact .inl ⟨.refl _, rfl⟩

/-- A move that does not choose where to copy puts once, or stores nothing. -/
theorem written_move? {mv : Move} (moved : m.move? mv = some m') :
    (m'.vault.legacy = m.vault.legacy ∧ (m'.vault.storage = m.vault.storage ∨
      ∃ id key value, m'.vault.storage = (m.vault.storage.put id key value).2)) ∨
      ∃ kind, m'.vault = (m.vault.target kind).2 := by
  cases move?_walks moved with
  | still _ _ vault | launched _ _ _ _ vault | left _ _ _ _ vault _ =>
    rw [vault]
    exact .inl ⟨rfl, .inl rfl⟩
  | @begun w _ _ => exact .inr ⟨w.request.kind, (Walk.start_cases w m.vault).1⟩
  | @visited w target stack _ _ =>
    refine .inl ⟨(Walk.alike_visit m.closed w m.vault target stack).legacy, ?_⟩
    exact (Walk.storage_visit m.closed w m.vault target stack).imp_right fun put => ⟨target, put⟩
  | sent _ _ _ | released _ _ => exact .inl ⟨rfl, .inl rfl⟩

theorem arranged_move {mv : Move} (h : m.vault.Arranged) (moved : m.move? mv = some m') :
    m'.vault.Arranged := by
  rcases stored_move? moved with ⟨remains, -⟩ | ⟨kind, vault⟩
  · exact h.keeps remains.toKeeps
  · rw [vault]
    exact h.target kind

theorem remains_deliveries (closed : Bool) (deliveries : List (Unit × Epoch)) (v : Vault) :
    v.Remains (deliveries.foldl (fun v d => v.confirmEpoch closed d.2) v) :=
  Vault.deliveries_induction (P := v.Remains) (.refl v)
    (fun v' epoch h => h.trans (v'.remains_confirmEpoch closed epoch)) deliveries

theorem legacy_deliveries {closed : Bool} {deliveries : List (Unit × Epoch)} {v : Vault}
    (enabled :
      (deliveries.foldl (fun v d => v.confirmEpoch closed d.2) v).legacy.disabled = false) :
    (deliveries.foldl (fun v d => v.confirmEpoch closed d.2) v).legacy = v.legacy := by
  induction deliveries generalizing v with
  | nil => rfl
  | cons d rest ih =>
    have later := ih enabled
    rw [List.foldl_cons] at enabled ⊢
    rw [later] at enabled ⊢
    exact v.legacy_confirmEpoch enabled

theorem remains_act (m : Manager) {a : Action}
    (faultless : ∀ name list, a ≠ .setRefusals name list) : m.vault.Remains (m.act a).vault := by
  cases a with
  | put key value => exact m.vault.remains_putInto .main key value
  | remove hash => exact m.vault.remains_remove hash
  | selectEpoch epoch =>
    exact ⟨⟨rfl, .refl _, Nat.le_refl _, fun _ => ⟨rfl, .of_opened (.refl _) rfl⟩⟩, rfl, rfl, rfl,
      rfl, .refl _⟩
  | confirmEpoch epoch => exact m.vault.remains_confirmEpoch m.closed epoch
  | checkEpoch epoch =>
    simp only [act, checkEpoch, deliverEpochs_eq]
    exact remains_deliveries ..
  | submit kind root sink =>
    rcases act_submit m kind root sink with ⟨-, same⟩ | ⟨-, same⟩
    all_goals
      rw [same]
      exact .of_tracker m.vault _
  | close =>
    simp only [act, close]
    split
    · exact .refl _
    · exact m.vault.remains_close
  | setRefusals name list => exact absurd rfl (faultless name list)
  | _ => exact .of_tracker m.vault _

theorem keeps_act (m : Manager) (a : Action) : m.vault.Keeps (m.act a).vault := by
  by_cases faultless : ∀ name list, a ≠ .setRefusals name list
  · exact (m.remains_act faultless).toKeeps
  · simp only [not_forall, not_not] at faultless
    obtain ⟨name, list, rfl⟩ := faultless
    exact ⟨rfl, .refl _, Nat.le_refl _, fun _ => ⟨rfl, .of_opened (.refl _) rfl⟩⟩

/-- Only a choice where to copy lists generations that were not listed before. -/
theorem exists_target_of_step {e : Event} (stepped : m.step? e = some m') {g : Generation}
    (listed : g ∈ m'.vault.legacy.generations) (new : g ∉ m.vault.legacy.generations) :
    ∃ kind, m'.vault = (m.vault.target kind).2 := by
  cases e with
  | action a =>
    cases Option.some.inj stepped
    exact absurd ((m.keeps_act a).generations.subset listed) new
  | move mv =>
    rcases stored_move? stepped with ⟨remains, -⟩ | chosen
    · exact absurd (remains.generations.subset listed) new
    · exact chosen

theorem arranged_step {e : Event} (h : m.vault.Arranged) (hs : m.step? e = some m') :
    m'.vault.Arranged := by
  cases e with
  | move mv => exact arranged_move h hs
  | action a =>
    cases Option.some.inj hs
    exact h.keeps (m.keeps_act a)

theorem assemble_of_compose {parts : Parts} {disk : Disk} {refusals : Refusals} {c : Manager}
    (composed : compose parts disk refusals = .ok c) :
    assemble parts disk refusals = .ok c.joinHub.discover := by
  unfold assemble
  rw [composed]
  rfl

/-- What a manager does with its parts once it has been composed of them: it hears
of epochs, and looks for generations. -/
theorem assemble_cases {parts : Parts} {disk : Disk} {refusals : Refusals} {m : Manager}
    (made : assemble parts disk refusals = .ok m) :
    ∃ n, compose parts disk refusals = .ok n ∧ m = n.joinHub.discover ∧
      n.vault.Remains n.joinHub.vault ∧
      (n.joinHub.vault.legacy.disabled = false → n.joinHub.vault.legacy = n.vault.legacy) := by
  unfold assemble at made
  cases composed : compose parts disk refusals with
  | error e =>
    rw [composed] at made
    cases made
  | ok n =>
    rw [composed] at made
    cases made
    refine ⟨n, rfl, rfl, ?_, fun enabled => ?_⟩
    · simp only [joinHub, deliverEpochs_eq]
      exact remains_deliveries ..
    · simp only [joinHub, deliverEpochs_eq] at enabled ⊢
      exact legacy_deliveries enabled

/-- In every state that a manager reaches, its generations are arranged. -/
theorem arranged_of_run {parts : Parts} {disk : Disk} {refusals : Refusals} {m₀ : Manager}
    {events : List Event} (made : assemble parts disk refusals = .ok m₀)
    (ran : m₀.run? events = some m) : m.vault.Arranged := by
  refine run?_induction (P := fun _ m => m.vault.Arranged) ?_ (fun _ h hs => arranged_step h hs) ran
  obtain ⟨n, composed, rfl, remains, -⟩ := assemble_cases made
  obtain ⟨_, _, _, _, _, _, _, _, -, -, -, -, -, -, -, valid, -, rfl⟩ := compose_eq_ok composed
  refine Vault.Arranged.discover (Vault.Arranged.keeps ?_ remains.toKeeps)
  exact ⟨valid, List.nodup_nil, by simp⟩

end Manager

end TrieStorage

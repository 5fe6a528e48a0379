import TrieStorage.Proofs.Manager.Closing
import TrieStorage.Proofs.Manager.FreshGenerations
import TrieStorage.Proofs.Storage.Addressed

/-!
# What copies put

Walks read whatever callers and older layouts have stored, and copy of it only what is under
its own address.  They copy into the main store, the checkpoint store, and generations.  Nothing
else is put into the last two but the mark of an active store: so in every state that a manager
reaches, all that is in its checkpoint store and in the generations made since the start is
addressed, whatever is in other layers and whichever stores have failed.
-/

namespace TrieStorage

namespace Vault

section

variable (first : FileId) (scheme : Scheme) (root : String)

/-- The storage is vetted, and copies may go into the generations. -/
structure Vetted (v : Vault) : Prop where
  uses : v.scheme = scheme
  shelves : v.config.snapshotDb.path.getD "" = root
  storage : v.storage.Vetted first scheme (v.storage.disk.shelf root) v.legacy.nextId
  listed : ∀ g ∈ v.legacy.generations,
    v.storage.Settled first (v.storage.disk.shelf root) v.legacy.nextId g.layer

/-- A vetted vault that another one has come to. -/
structure Bears (v v' : Vault) : Prop where
  vetted : v'.Vetted first scheme root
  ages : v.storage.Ages scheme v'.storage
  nextId : v.legacy.nextId ≤ v'.legacy.nextId

end

variable {first : FileId} {scheme : Scheme} {root : String} {v v' v'' : Vault}

theorem Bears.trans (h : v.Bears first scheme root v') (h' : v'.Bears first scheme root v'') :
    v.Bears first scheme root v'' :=
  ⟨h'.vetted, h.ages.trans h'.ages, Nat.le_trans h.nextId h'.nextId⟩

/-- Where copies may go they may go later on. -/
theorem Bears.settled (h : v.Vetted first scheme root) (bears : v.Bears first scheme root v')
    {id : LayerId}
    (settled : v.storage.Settled first (v.storage.disk.shelf root) v.legacy.nextId id) :
    v'.storage.Settled first (v'.storage.disk.shelf root) v'.legacy.nextId id := by
  rw [Disk.shelf_congr bears.ages.workDir]
  exact settled.ages h.storage bears.ages bears.nextId

/-- A generation that is made starts out with what its directory holds, and the mark. -/
theorem gains_created (arranged : v.Arranged) {kind : RequestKind} {g : Generation}
    (listed : g ∈ (v.target kind).2.legacy.generations) (new : g ∉ v.legacy.generations) :
    g.layer ≠ .main ∧ ∃ opener store disk layer, v.opener = some opener ∧
      opener.openAt v.storage.disk g.path = (.ok store, disk) ∧
      (v.target kind).2.storage.layer? g.layer = some layer ∧ store.Gains scheme layer.store := by
  obtain ⟨root, opener, id, l', s', grows, made, same, -, rfl⟩ := exists_create_of_target listed new
  obtain ⟨-, store, disk, opening, left⟩ := Legacy.create_eq_ok arranged.pos arranged.legacy made
  rw [same]
  exact ⟨by simp [Legacy.next], opener, store, disk, _, (growth?_eq_some.1 grows).2.2, opening,
    left.layer, Storage.gains_layer_put scheme.admits_mark _ v.storage.refusals disk⟩

namespace Vetted

variable (h : v.Vetted first scheme root)

include h

theorem refl : v.Bears first scheme root v := ⟨h, .refl _, Nat.le_refl _⟩

theorem root_of_growth? {root' : String} {opener : Opener}
    (grows : v.growth? = some (root', opener)) : root' = root := by
  have path := (growth?_eq_some.1 grows).2.1
  rw [← h.shelves, path]
  rfl

/-- A change that makes no generation. -/
theorem bears (config : v'.config = v.config) (same : v'.scheme = v.scheme)
    (nextId : v'.legacy.nextId = v.legacy.nextId)
    (generations : v'.legacy.generations ⊆ v.legacy.generations)
    (vetted : v'.storage.Vetted first scheme (v.storage.disk.shelf root) v.legacy.nextId)
    (ages : v.storage.Ages scheme v'.storage) : v.Bears first scheme root v' := by
  have shelf := Disk.shelf_congr ages.workDir root
  refine ⟨⟨same.trans h.uses, by rw [config]; exact h.shelves, ?_, fun g mem => ?_⟩, ages,
    Nat.le_of_eq nextId.symm⟩
  · rw [shelf, nextId]
    exact vetted
  · rw [shelf, nextId]
    exact (h.listed g (generations mem)).ages h.storage ages (Nat.le_refl _)

theorem putInto {id : LayerId} {key value : Bytes}
    (settled : v.storage.Settled first (v.storage.disk.shelf root) v.legacy.nextId id)
    (admitted : id = .main ∨ scheme.Admits key value) :
    v.Bears first scheme root (v.putInto id key value).2 :=
  h.bears rfl rfl rfl (fun _ mem => mem) (h.storage.put admitted (.inl settled))
    (v.storage.ages_put admitted)

theorem put_main (key value : Bytes) : v.Bears first scheme root (v.putInto .main key value).2 :=
  h.putInto (h.storage.settled_of_isGiven rfl) (.inl rfl)

theorem closeLayers (answer : Except StoreError Unit) (ids : List LayerId) :
    (Legacy.closeLayers answer ids v.storage).2.Vetted first scheme (v.storage.disk.shelf root)
        v.legacy.nextId ∧ v.storage.Ages scheme (Legacy.closeLayers answer ids v.storage).2 := by
  have storage := h.storage
  clear h
  generalize v.storage.disk.shelf root = shelf at storage ⊢
  generalize v.storage = s at storage ⊢
  induction ids generalizing answer s with
  | nil => exact ⟨storage, .refl s⟩
  | cons id rest ih =>
    rw [Legacy.closeLayers_cons]
    obtain ⟨closed, later⟩ := ih _ _ (storage.close id)
    exact ⟨closed, (s.ages_close id).trans later⟩

theorem closeLegacy : v.Bears first scheme root v.closeLegacy.2 := by
  have remains := v.remains_closeLegacy
  have same : v.closeLegacy.2.scheme = v.scheme := rfl
  obtain ⟨-, storage, -⟩ := v.closeLegacy_eq
  obtain ⟨closed, ages⟩ := h.closeLayers (.ok ()) v.legacy.unclosed
  rw [← storage] at closed ages
  exact h.bears remains.config same remains.nextId remains.generations.subset closed ages

theorem confirmEpoch (closed : Bool) (epoch : Epoch) :
    v.Bears first scheme root (v.confirmEpoch closed epoch) := by
  refine confirmEpoch_induction (P := fun v' => v.Bears first scheme root v') h.refl
    (fun v' bears => bears.trans ?_)
    (fun v' bears => bears.trans (bears.vetted.put_main activeKey activeValue))
    (fun v' bears => bears.trans bears.vetted.closeLegacy) closed epoch
  exact bears.vetted.bears rfl rfl rfl (fun _ mem => mem) bears.vetted.storage (.refl _)

theorem deliveries (closed : Bool) (deliveries : List (Unit × Epoch)) :
    v.Bears first scheme root (deliveries.foldl (fun v d => v.confirmEpoch closed d.2) v) :=
  deliveries_induction (P := fun v' => v.Bears first scheme root v') h.refl
    (fun _ epoch bears => bears.trans (bears.vetted.confirmEpoch closed epoch)) deliveries

theorem close : v.Bears first scheme root v.close.2 := by
  have remains := v.remains_close
  obtain ⟨closed, ages⟩ := h.closeLayers (.ok ()) (v.unclosed false)
  rw [← v.close_eq.2.1] at closed ages
  exact h.bears remains.config rfl remains.nextId remains.generations.subset closed ages

/-- Whoever is told to copy somewhere may do so. -/
theorem target (kind : RequestKind) : v.Bears first scheme root (v.target kind).2 ∧
    ∀ id, (v.target kind).1 = .ok (some id) → (v.target kind).2.storage.Settled first
      ((v.target kind).2.storage.disk.shelf root) (v.target kind).2.legacy.nextId id := by
  rcases v.target_cases kind with ⟨same, chosen⟩ |
    ⟨root', opener, answer, l', s', grows, made, same, chosen⟩
  · rw [same]
    refine ⟨h.refl, fun id own => ?_⟩
    cases given : id.isGiven with
    | true => exact h.storage.settled_of_isGiven given
    | false =>
      cases id with
      | generation serial =>
        obtain ⟨-, -, g, -, last, layer⟩ := chosen serial own
        rw [← layer]
        exact h.listed g (List.mem_of_getLast? last)
      | _ => cases given
  · obtain rfl := h.root_of_growth? grows
    obtain ⟨vetted, ages, nextId, settled, listed⟩ := Legacy.vetted_create h.storage made
    have shelf := Disk.shelf_congr ages.workDir root'
    rw [same]
    refine ⟨⟨⟨h.uses, h.shelves, ?_, fun g mem => ?_⟩, ages, nextId⟩, fun id own => ?_⟩
    · rw [shelf]
      exact vetted
    · rw [shelf]
      rcases listed g mem with old | new
      · exact (h.listed g old).ages h.storage ages nextId
      · exact settled g.layer new
    · rw [shelf]
      exact settled id (chosen id own)

theorem discover (none_ : v.legacy.nextId = 0) : v.discover.Vetted first scheme root := by
  unfold Vault.discover
  split
  · exact h
  · next root' opener grows =>
    obtain rfl := h.root_of_growth? grows
    have storage := h.storage
    rw [none_] at storage
    obtain ⟨vetted, ages, settled⟩ : (Discovery.run root' opener v.storage).2.Vetted .. ∧ _ ∧ _ :=
      Discovery.vetted_run storage
    have shelf := Disk.shelf_congr ages.workDir root'
    refine ⟨h.uses, h.shelves, ?_, fun g mem => ?_⟩
    · rw [shelf]
      exact vetted
    · rw [shelf]
      exact settled g mem

/-- A walk copies what it has found under its address. -/
theorem visit {target : LayerId} (closed : Bool) (w : Walk) (stack : List NodeHash)
    (settled : v.storage.Settled first (v.storage.disk.shelf root) v.legacy.nextId target) :
    v.Bears first scheme root (w.visit closed v target stack).2 := by
  have read {hash : NodeHash} {encoded : Bytes} {node : Node}
      (read : Walk.readNode v hash = .ok (encoded, node)) :
      scheme.Admits hash.bytes encoded := by
    intro _
    obtain ⟨-, addressed, decoded⟩ := Walk.readNode_eq_ok read
    rw [h.uses] at addressed decoded
    exact ⟨hash.length_bytes, congrArg NodeHash.bytes addressed, node, decoded⟩
  have visited := Walk.visited closed w v target stack
  generalize w.visit closed v target stack = next at visited ⊢
  obtain ⟨w', v'⟩ := next
  simp only at visited ⊢
  cases visited with
  | unwritten _ _ found written =>
    have put := h.putInto settled (.inr (read found))
    rw [written] at put
    exact put
  | @copied hash _ encoded _ v₁ _ _ found written =>
    have put := h.putInto settled (.inr (read found))
    rw [written] at put
    refine put.trans ?_
    cases w.request.kind with
    | snapshot => exact put.vetted.refl
    | checkpoint =>
      exact put.vetted.bears rfl rfl rfl (fun _ mem => mem) put.vetted.storage (.refl _)
  | _ => exact h.refl

end Vetted

end Vault

namespace Manager

variable {first : FileId} {scheme : Scheme} {root : String} {m m' m₀ : Manager}
  {events : List Event} {parts : Parts} {disk : Disk} {refusals : Refusals}

/-- The vault is vetted, and so is what walks copy into. -/
structure Vetted (first : FileId) (scheme : Scheme) (root : String) (m : Manager) : Prop where
  vault : m.vault.Vetted first scheme root
  targets : ∀ w ∈ m.walks, ∀ id, w.phase.target? = some id → m.vault.storage.Settled first
    (m.vault.storage.disk.shelf root) m.vault.legacy.nextId id

namespace Vetted

theorem bears_act (h : m.vault.Vetted first scheme root) (a : Action) :
    m.vault.Bears first scheme root (m.act a).vault := by
  cases a with
  | put key value => exact h.put_main key value
  | remove hash =>
    exact h.bears rfl rfl rfl (fun _ mem => mem) (h.storage.remove_main hash.bytes)
      (m.vault.storage.ages_remove_main hash.bytes)
  | selectEpoch epoch =>
    have touched := m.vault.storage.touched_selectEpoch epoch
    refine h.bears rfl rfl rfl (fun _ mem => mem) ?_ (touched.ages fun other => absurd rfl other)
    refine touched.vetted h.storage (.inl rfl) fun _ fresh => ?_
    rcases fresh with same | ⟨same, -⟩ <;> cases same
  | confirmEpoch epoch => exact h.confirmEpoch m.closed epoch
  | checkEpoch epoch =>
    simp only [act, checkEpoch, deliverEpochs_eq]
    exact h.deliveries m.closed _
  | submit kind root sink =>
    rcases act_submit m kind root sink with ⟨-, same⟩ | ⟨-, same⟩
    all_goals
      rw [same]
      exact h.bears rfl rfl rfl (fun _ mem => mem) h.storage (.refl _)
  | close =>
    simp only [act, Manager.close]
    split
    · exact h.refl
    · exact h.close
  | setRefusals name list =>
    have ages : m.vault.storage.Ages scheme (m.act (.setRefusals name list)).vault.storage :=
      ⟨rfl, Nat.le_refl _, fun _ _ => .inl, fun id layer found =>
        ⟨layer, by cases id <;> exact found, fun _ log => log, fun _ => .refl layer.store⟩⟩
    have same (id : LayerId) : (m.act (.setRefusals name list)).vault.storage.layer? id =
        m.vault.storage.layer? id := by
      cases id <;> rfl
    have old := h.storage
    refine h.bears rfl rfl rfl (fun _ mem => mem) ⟨old.made, old.named, old.single, old.unwritten,
      fun id layer given found => ?_, fun id layer found => ?_, fun id layer found => ?_⟩ ages
    · exact old.given id layer given ((same id).symm.trans found)
    · exact old.logs id layer ((same id).symm.trans found)
    · exact old.addressed id layer ((same id).symm.trans found)
  | _ => exact h.bears rfl rfl rfl (fun _ mem => mem) h.storage (.refl _)

theorem bears_move (h : Vetted first scheme root m) {mv : Move} (moved : m.move? mv = some m') :
    m.vault.Bears first scheme root m'.vault := by
  cases move?_walks moved with
  | still _ _ vault | launched _ _ _ _ vault | left _ _ _ _ vault _ =>
    rw [vault]
    exact h.vault.refl
  | @begun w _ _ =>
    have vault := (Walk.start_cases w m.vault).1
    have bears := (h.vault.target w.request.kind).1
    rw [← vault] at bears
    exact bears
  | @visited w target stack found phase =>
    refine h.vault.visit m.closed w stack (h.targets w (walk?_eq_some found).1 target ?_)
    rw [phase]
    rfl
  | sent _ _ _ | released _ _ => exact h.vault.refl

theorem step (h : Vetted first scheme root m) {e : Event} (stepped : m.step? e = some m') :
    Vetted first scheme root m' ∧ m.vault.Bears first scheme root m'.vault := by
  cases e with
  | action a =>
    cases Option.some.inj stepped
    have bears := bears_act h.vault a
    refine ⟨⟨bears.vetted, fun w' mem id copies => ?_⟩, bears⟩
    obtain ⟨w, before, same⟩ := phase_act mem
    rw [← same] at copies
    exact bears.settled h.vault (h.targets w before id copies)
  | move mv =>
    have bears := h.bears_move stepped
    refine ⟨⟨bears.vetted, fun w' mem id copies => ?_⟩, bears⟩
    rcases target?_move? stepped mem copies with ⟨w, before, copies⟩ | ⟨kind, chosen, vault⟩
    · exact bears.settled h.vault (h.targets w before id copies)
    · rw [vault]
      exact (h.vault.target kind).2 id chosen

/-- Whatever happens, what is vetted stays so, and what is open takes in nothing but copies. -/
theorem run (h : Vetted first scheme root m) (ran : m.run? events = some m') :
    Vetted first scheme root m' ∧ m.vault.Bears first scheme root m'.vault := by
  refine run?_induction (P := fun _ m' => Vetted first scheme root m' ∧
    m.vault.Bears first scheme root m'.vault) ⟨h, h.vault.refl⟩ (fun _ ih stepped => ?_) ran
  obtain ⟨vetted, bears⟩ := ih
  obtain ⟨vetted', bears'⟩ := vetted.step stepped
  exact ⟨vetted', bears.trans bears'⟩

end Vetted

end Manager

/-- The stores that are given are kept in files of a disk, if they are kept on disk. -/
def Parts.StoredOn (parts : Parts) (disk : Disk) : Prop :=
  ∀ store, parts.db = some store ∨ parts.main = some store ∨ parts.checkpoints = some store →
    ∀ file, store.log? = some file → file < disk.files.length

namespace Manager

variable {m m₀ : Manager} {events : List Event} {parts : Parts} {disk : Disk}
  {refusals : Refusals} {address : Bytes → NodeHash} {decode : Bytes → Except CodecError Node}

theorem vetted_compose (hasher : parts.hasher = some address)
    (marshaller : parts.marshaller = some decode) (stored : parts.StoredOn disk)
    (named : ∀ p file, disk.entryAt? p = some (.file file) → file < disk.files.length)
    (empty : ∀ store, parts.checkpoints = some store → ∀ key value, ¬ store.Holds key value)
    (composed : compose parts disk refusals = .ok m) :
    m.vault.Vetted disk.files.length ⟨address, decode⟩ (parts.config.snapshotDb.path.getD "") := by
  obtain ⟨db, main, checkpoints, _, _, _, _, _, hasDb, hasMain, hasCheckpoints, hasDecode,
    hasAddress, -, -, -, -, same⟩ := compose_eq_ok composed
  cases hasher.symm.trans hasAddress
  cases marshaller.symm.trans hasDecode
  have within (id : LayerId) (layer : Layer) (found : m.vault.storage.layer? id = some layer)
      (file : FileId) (log : layer.store.log? = some file) : file < disk.files.length := by
    rw [same] at found
    cases id with
    | main =>
      cases found
      exact stored main (.inr (.inl hasMain)) file log
    | db =>
      cases found
      exact stored db (.inl hasDb) file log
    | checkpoints =>
      cases found
      exact stored checkpoints (.inr (.inr hasCheckpoints)) file log
    | generation serial => cases found
  subst same
  refine ⟨rfl, rfl, ⟨Nat.le_refl _, named, fun p q file new there => ?_,
    fun k file _ new there => ?_, fun id layer _ => within id layer, within,
    fun id layer found fresh => ?_⟩, by simp⟩
  · exact absurd (named p file there) (Nat.not_lt.2 new)
  · exact absurd (named _ file there) (Nat.not_lt.2 new)
  · cases id with
    | checkpoints =>
      cases found
      exact fun key value held => absurd held (empty checkpoints hasCheckpoints key value)
    | generation serial => cases found
    | _ => rcases fresh with same | ⟨same, -⟩ <;> cases same

theorem vetted_assemble (hasher : parts.hasher = some address)
    (marshaller : parts.marshaller = some decode) (stored : parts.StoredOn disk)
    (named : ∀ p file, disk.entryAt? p = some (.file file) → file < disk.files.length)
    (empty : ∀ store, parts.checkpoints = some store → ∀ key value, ¬ store.Holds key value)
    (made : assemble parts disk refusals = .ok m) :
    Vetted disk.files.length ⟨address, decode⟩ (parts.config.snapshotDb.path.getD "") m := by
  obtain ⟨n, composed, same, remains, -⟩ := assemble_cases made
  have start := vetted_compose hasher marshaller stored named empty composed
  have joined := (start.deliveries n.closed ((n.hub.register ()).2)).vetted
  have none_ : n.joinHub.vault.legacy.nextId = 0 := by
    obtain ⟨_, _, _, _, _, _, _, _, -, -, -, -, -, -, -, -, -, rfl⟩ := compose_eq_ok composed
    exact remains.nextId
  obtain ⟨vault, throttle, hub, fresh⟩ := assemble_eq_ok made
  refine ⟨?_, by simp [fresh]⟩
  rw [same]
  refine Vault.Vetted.discover ?_ none_
  simp only [joinHub, deliverEpochs_eq]
  exact joined

/-- In every state that a manager reaches, whatever its main store and the old layout hold and
whichever stores refuse a call, all that is in the checkpoint store and in the generations whose
logs have been made since the start, but for the marks, is under its own address of 32 bytes and
can be decoded.  So is, in every generation that has been made since, all that was not in its
directory when it was made. -/
theorem copies_addressed (hasher : parts.hasher = some address)
    (marshaller : parts.marshaller = some decode) (stored : parts.StoredOn disk)
    (named : ∀ p file, disk.entryAt? p = some (.file file) → file < disk.files.length)
    (empty : ∀ store, parts.checkpoints = some store → ∀ key value, ¬ store.Holds key value)
    (made : assemble parts disk refusals = .ok m₀) (ran : m₀.run? events = some m) :
    m.vault.storage.checkpoints.store.Addressed ⟨address, decode⟩ ∧
      (∀ layer ∈ m.vault.storage.opened,
        (∀ file, layer.store.log? = some file → disk.files.length ≤ file) →
        layer.store.Addressed ⟨address, decode⟩) ∧
      ∀ before e after n n' g, events = before ++ e :: after → m₀.run? before = some n →
        n.step? e = some n' → g ∈ n'.vault.legacy.generations → g ∉ n.vault.legacy.generations →
        ∃ opener store disk' layer, n.vault.opener = some opener ∧
          opener.openAt n.vault.storage.disk g.path = (.ok store, disk') ∧
          m.vault.storage.layer? g.layer = some layer ∧
          store.Gains ⟨address, decode⟩ layer.store := by
  have start := vetted_assemble hasher marshaller stored named empty made
  have storage := (start.run ran).1.vault.storage
  refine ⟨storage.addressed .checkpoints _ rfl (.inl rfl), fun layer mem new => ?_,
    fun before e after n n' g cut first stepped listed new => ?_⟩
  · obtain ⟨serial, found⟩ := List.mem_iff_getElem?.1 mem
    exact storage.addressed (.generation serial) layer found (.inr ⟨rfl, new⟩)
  · have later : n'.run? after = some m := by
      rw [cut, run?_append, first, Option.bind_some, run?, stepped, Option.bind_some] at ran
      exact ran
    obtain ⟨kind, vault⟩ := exists_target_of_step stepped listed new
    rw [vault] at listed
    obtain ⟨other, opener, store, disk', layer, opens, opening, found, gains⟩ :=
      Vault.gains_created (arranged_of_run made first) listed new
    rw [← vault] at found
    have vetted := (start.run (run?_concat.2 ⟨n, first, stepped⟩)).1
    obtain ⟨layer', found', -, more⟩ := (vetted.run later).2.ages.layers g.layer layer found
    exact ⟨opener, store, disk', layer', opens, opening, found', gains.trans (more other)⟩

open Walk (rootHash leafHash sampleRoot)

/-- The main store holds a stray entry, and something else in place of the leaf, when a snapshot
of the root begins. -/
def strayRun : List Event :=
  .action (.put [97] [49]) :: admittedRun ++
    [.action (.put leafHash.bytes [49]), begun, .move (.visit 0), .move (.visit 0)]

/-- The checkpoint store starts out empty. -/
theorem not_holds_checkpoints {store : Store} (given : generationsOnDisk.checkpoints = some store)
    (key value : Bytes) : ¬ store.Holds key value := by
  cases given
  rintro ⟨⟩

/-- The root is copied, and nothing else. -/
theorem strayRun_addressed : ∃ m layer, runFrom generationsOnDisk {} strayRun = some m ∧
    m.vault.storage.peek .main [97] = some [49] ∧
    m.vault.storage.opened[0]? = some layer ∧ layer.store.log? = some 0 ∧
    m.vault.storage.peek (.generation 0) rootHash.bytes = some sampleRoot.encode ∧
    layer.store.Addressed Scheme.standard := by
  have evaluated : ∃ m, runFrom generationsOnDisk {} strayRun = some m ∧
      (m.vault.storage.peek .main [97] = some [49] ∧
        m.vault.storage.peek (.generation 0) rootHash.bytes = some sampleRoot.encode ∧
        (m.vault.storage.opened[0]?).any fun layer => decide (layer.store.log? = some 0)) :=
    exists_of_runFrom (by decide +kernel)
  obtain ⟨m, ran, stray, copied, looked⟩ := evaluated
  obtain ⟨layer, found, log⟩ := (Option.any_eq_true _ _).1 looked
  obtain ⟨m₀, made, ran'⟩ := of_runFrom ran
  have stored : generationsOnDisk.StoredOn {} := by
    intro store given file log
    rcases given with given | given | given <;> cases given <;> cases log
  have named : ∀ p file, ({} : Disk).entryAt? p = some (.file file) → file < 0 := by
    intro p file there
    unfold Disk.entryAt? at there
    split at there <;> cases there
  obtain ⟨-, addressed, -⟩ := copies_addressed rfl rfl stored named
    (fun _ => not_holds_checkpoints) made ran'
  exact ⟨m, layer, ran, stray, found, of_decide_eq_true log, copied,
    addressed layer (List.mem_of_getElem? found) fun file same => Nat.zero_le file⟩

/-- Of the old directory that the scan does not get to, a generation is made that has the entry
there: its key is neither the mark's nor one of 32 bytes. -/
theorem agedDisk_unaddressed : ∃ m₀ n m g layer,
    assemble generationsOnDisk (agedDisk ["1", "1x", "2"]) [] = .ok m₀ ∧
    (∀ store, generationsOnDisk.checkpoints = some store → ∀ key value, ¬ store.Holds key value) ∧
    m₀.run? admittedRun = some n ∧ n.step? begun = some m ∧
    g ∉ n.vault.legacy.generations ∧ g ∈ m.vault.legacy.generations ∧
    m.vault.storage.layer? g.layer = some layer ∧ layer.store.Holds [97] [49] ∧
    ([97] : Bytes) ≠ activeKey ∧ ¬ Scheme.standard.Addresses [97] [49] := by
  obtain ⟨c, n, m, composed, -, -, ran, stepped, new, listed, looked⟩ :=
    exists_of_scanning scanOrder_aged (P := fun _ n m =>
      ⟨2, "g/2", .generation 1⟩ ∉ n.vault.legacy.generations ∧
        ⟨2, "g/2", .generation 1⟩ ∈ m.vault.legacy.generations ∧
        (m.vault.storage.layer? (.generation 1)).any fun layer =>
          decide (layer.store.Holds [97] [49])) (by decide +kernel)
  obtain ⟨layer, found, held⟩ := (Option.any_eq_true _ _).1 looked
  exact ⟨_, n, m, _, layer, assemble_of_compose composed, fun _ => not_holds_checkpoints, ran,
    stepped, new, listed, found, of_decide_eq_true held, by decide,
    fun addressed => absurd addressed.width (by decide)⟩

end Manager

end TrieStorage

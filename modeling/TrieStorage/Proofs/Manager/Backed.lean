import TrieStorage.Proofs.Manager.Closing
import TrieStorage.Proofs.Manager.FreshGenerations
import TrieStorage.Proofs.Storage.Scanning

/-!
# A manager over an archive

Whatever a manager does, short of closing, its layers go on standing for the stores on disk: those
of the data directory, and one for each of its generations.  While the old layout may grow there
are directories for these generations and for no others, so a scan would find what the manager
has.
-/

namespace TrieStorage

/-! ## The old layout -/

/-- Which layer stands for which store. -/
inductive Legacy.Stands (l : Legacy) : LayerId → Volume → Prop where
  | main : l.Stands .main .main
  | checkpoints : l.Stands .checkpoints .checkpoints
  | db (active : l.phase = .active) : l.Stands .db .db
  | generation {g : Generation} (mem : g ∈ l.generations) : l.Stands g.layer (.generation g.id)

namespace Legacy

variable {l l' : Legacy} {id : LayerId} {v : Volume}

theorem Stands.mono (h : l.Stands id v) (phase : l'.phase = l.phase)
    (generations : ∀ g ∈ l.generations, g ∈ l'.generations) : l'.Stands id v := by
  cases h with
  | main => exact .main
  | checkpoints => exact .checkpoints
  | db active => exact .db (phase.trans active)
  | generation mem => exact .generation (generations _ mem)

theorem stands_congr (phase : l'.phase = l.phase)
    (generations : ∀ g, g ∈ l'.generations ↔ g ∈ l.generations) (id : LayerId) (v : Volume) :
    l'.Stands id v ↔ l.Stands id v :=
  ⟨fun h => h.mono phase.symm fun g => (generations g).1,
    fun h => h.mono phase fun g => (generations g).2⟩

theorem stands_adopt {d : Discovery} (bare : l.generations = []) :
    (l.adopt d).Stands id v ↔ l.Stands id v ∨ Discovery.Stands d.generations id v := by
  constructor
  · intro h
    cases h with
    | main => exact .inl .main
    | checkpoints => exact .inl .checkpoints
    | db active => exact .inl (.db active)
    | generation mem => exact .inr ⟨_, mem, rfl, rfl⟩
  · rintro (h | ⟨g, mem, rfl, rfl⟩)
    · refine h.mono rfl ?_
      simp [bare]
    · exact .generation mem

theorem exists_of_stands {n : Nat} (h : l.Stands id (.generation n)) :
    ∃ g ∈ l.generations, g.layer = id ∧ g.id = n := by
  generalize own : Volume.generation n = v at h
  cases h with
  | @generation g mem =>
    cases own
    exact ⟨g, mem, rfl, rfl⟩
  | _ => cases own

/-- The generation that is made next, once its store has been opened. -/
def nextIn (l : Legacy) (root : String) (id : LayerId) : Generation :=
  ⟨l.nextId, Generation.pathOf root l.nextId, id⟩

/-- Making a generation is to open its store, to mark it and to drop the oldest ones. -/
theorem create_steps {root : String} {opener : Opener} {retention : Retention} {s s' : Storage}
    (made : l.create root opener retention s = (.ok id, l', s')) :
    ∃ s₁, s.openGeneration opener (Generation.pathOf root l.nextId) = (.ok id, s₁) ∧
      l' = { l with
        generations := (l.generations ++ [l.nextIn root id]).drop
          (l.generations.length + 1 - retention.max)
        nextId := l.nextId + 1 } ∧
      s' = (evict retention.keepOnDisk (l.generations.length + 1 - retention.max)
        (l.generations ++ [l.nextIn root id]) (s₁.put id activeKey activeValue).2).2 := by
  cases creation made with
  | made opening => exact ⟨_, opening, rfl, rfl⟩

/-- The layers stand for what is on disk, and there are directories for the generations and for
no others. -/
structure Archived (site : Site) (l : Legacy) (s : Storage) : Prop where
  backed : s.Backed site l.Stands
  listed : ∀ n, site.Shelves s.disk n ↔ ∃ g ∈ l.generations, g.id = n
  ascending : l.generations.Pairwise fun a b => a.id < b.id
  paths : ∀ g ∈ l.generations, g.path = site.dir (.generation g.id)

namespace Archived

variable {site : Site} {s s' : Storage} {gs : List Generation}

theorem congr (h : l.Archived site s) (phase : l'.phase = l.phase)
    (generations : l'.generations = l.generations) : l'.Archived site s := by
  refine ⟨h.backed.congr (stands_congr phase fun g => by rw [generations]), ?_, ?_, ?_⟩
  all_goals rw [generations]
  · exact h.listed
  · exact h.ascending
  · exact h.paths

theorem change (h : l.Archived site s) {r : LogRecord} (fits : r.Fits) (id : LayerId) :
    l.Archived site (s.change id r).2 := by
  refine ⟨(h.backed.change fits id).1, fun n => ?_, h.ascending, h.paths⟩
  rw [h.backed.shelves_change fits]
  exact h.listed n

theorem dropGeneration {g : Generation}
    (h : Archived site { l with generations := g :: gs } s) :
    Archived site { l with generations := gs } (Legacy.dropGeneration false g s) := by
  obtain ⟨first, ascending⟩ := List.pairwise_cons.1 h.ascending
  have stand : ({ l with generations := g :: gs } : Legacy).Stands g.layer (.generation g.id) :=
    .generation List.mem_cons_self
  obtain ⟨backed, shelves⟩ := h.backed.dropGeneration stand (h.paths g List.mem_cons_self)
    ((h.listed g.id).2 ⟨g, List.mem_cons_self, rfl⟩)
  refine ⟨backed.congr fun id v => ⟨fun left => ?_, fun ⟨ne, stand'⟩ => ?_⟩, fun n => ?_, ascending,
    fun x mem => h.paths x (List.mem_cons_of_mem g mem)⟩
  · have before : ({ l with generations := g :: gs } : Legacy).Stands id v :=
      left.mono rfl fun x mem => List.mem_cons_of_mem g mem
    refine ⟨?_, before⟩
    rintro rfl
    obtain rfl := h.backed.volume_unique stand before
    obtain ⟨x, mem, -, same⟩ := exists_of_stands left
    have := first x mem
    omega
  · cases stand' with
    | main => exact .main
    | checkpoints => exact .checkpoints
    | db active => exact .db active
    | generation mem =>
      rcases List.mem_cons.1 mem with rfl | later
      · exact absurd rfl ne
      · exact .generation later
  · rw [shelves, h.listed]
    constructor
    · rintro ⟨⟨x, mem, rfl⟩, ne⟩
      rcases List.mem_cons.1 mem with rfl | later
      · exact absurd rfl ne
      · exact ⟨x, later, rfl⟩
    · rintro ⟨x, mem, rfl⟩
      exact ⟨⟨x, List.mem_cons_of_mem g mem, rfl⟩, (first x mem).ne'⟩

theorem evict (n : Nat) (h : Archived site { l with generations := gs } s) :
    Archived site { l with generations := gs.drop n } (Legacy.evict false n gs s).2 := by
  induction n generalizing gs s with
  | zero => exact h
  | succ n ih =>
    cases gs with
    | nil => exact h
    | cons g gs => exact ih h.dropGeneration

theorem create (h : l.Archived site s) {max : Nat} {id : LayerId}
    (below : ∀ g ∈ l.generations, g.id < l.nextId) (small : l.nextId < Generation.idBound)
    (made : l.create site.root .logged ⟨max, false⟩ s = (.ok id, l', s')) :
    l'.Archived site s' := by
  obtain ⟨s₁, opening, rfl, rfl⟩ := create_steps made
  have fresh (id : LayerId) : ¬ l.Stands id (.generation l.nextId) := by
    intro stand
    obtain ⟨g, mem, -, same⟩ := exists_of_stands stand
    exact absurd (below g mem) (by omega)
  obtain ⟨-, backed, shelves⟩ := h.backed.openGeneration opening small fresh
  have fits : (LogRecord.put activeKey activeValue).Fits := by decide
  have grown : Archived site { l with generations := l.generations ++ [l.nextIn site.root id] }
      s₁ := by
    refine ⟨backed.congr fun id' v => ?_, fun n => ?_, ?_, fun g mem => ?_⟩
    · constructor
      · intro stand
        cases stand with
        | main => exact .inl .main
        | checkpoints => exact .inl .checkpoints
        | db active => exact .inl (.db active)
        | generation mem =>
          rcases List.mem_append.1 mem with old | new
          · exact .inl (.generation old)
          · rw [List.mem_singleton.1 new]
            exact .inr ⟨rfl, rfl⟩
      · rintro (stand | ⟨rfl, rfl⟩)
        · exact stand.mono rfl fun g mem => List.mem_append_left _ mem
        · exact .generation (g := l.nextIn site.root id') (by simp)
    · rw [shelves, h.listed]
      simp [nextIn, or_and_right, exists_or, eq_comm]
    · refine List.pairwise_append.2 ⟨h.ascending, List.pairwise_singleton .., ?_⟩
      intro g mem x new
      rw [List.mem_singleton.1 new]
      exact below g mem
    · rcases List.mem_append.1 mem with old | new
      · exact h.paths g old
      · rw [List.mem_singleton.1 new]
        rfl
  exact ((grown.change fits id).evict _).congr rfl rfl

/-- A generation is made unless the disk fails. -/
theorem create_error (h : l.Archived site s) {max : Nat} {e : StoreError}
    (below : ∀ g ∈ l.generations, g.id < l.nextId)
    (failed : l.create site.root .logged ⟨max, false⟩ s = (.error e, l', s')) : e = .io := by
  have free (name : LayerName) (call : Call) (key : Option Bytes) :
      s.refusals.refuse name call key = false := by
    rw [h.backed.refusals]
    rfl
  obtain ⟨-, opening⟩ := create_eq_error (free _ _ _) failed
  have absent : ¬ site.Shelves s.disk l.nextId := by
    rw [h.listed]
    rintro ⟨g, mem, same⟩
    exact absurd (below g mem) (by omega)
  unfold Storage.openGeneration at opening
  dsimp only at opening
  rw [if_neg (by rw [free]; exact Bool.false_ne_true)] at opening
  split at opening
  · next unopened =>
    cases opening
    exact h.backed.archive.openAt_error absent unopened
  · cases opening

end Archived

end Legacy

/-! ## Closing layers -/

theorem Storage.Backed.closeLayers {site : Site} {stands : LayerId → Volume → Prop} {s : Storage}
    (h : s.Backed site stands) (answer : Except StoreError Unit) (ids : List LayerId) :
    (Legacy.closeLayers answer ids s).2.Backed site fun id v => id ∉ ids ∧ stands id v := by
  induction ids generalizing answer s stands with
  | nil => exact h.congr (by simp)
  | cons id rest ih =>
    rw [Legacy.closeLayers_cons]
    refine (ih (h.close id) _).congr fun id' v => ?_
    rw [List.mem_cons, not_or, and_comm (a := id' ≠ id), and_assoc]

/-! ## The vault -/

namespace Vault

variable {site : Site} {looked : Bool} {v v' : Vault} {key value : Bytes}

/-- The layers of a vault stand for the stores of a site; once it has looked for generations, it
has those that are there, as long as the old layout is usable. -/
structure Backed (site : Site) (looked : Bool) (v : Vault) : Prop where
  opens : v.opener = some .logged
  path : v.config.snapshotDb.path = some site.root
  drops : v.config.keepSnapshots = false
  storage : v.storage.Backed site v.legacy.Stands
  shelved : looked = true → v.legacy.usable = true → v.legacy.Archived site v.storage

/-- Opening the store for a copy fails if making a generation does. -/
theorem error_of_create {root : String} {opener : Opener} {e : StoreError} {l' : Legacy}
    {s' : Storage} (grows : v.growth? = some (root, opener))
    (failed : v.legacy.create root opener v.retention v.storage = (.error e, l', s'))
    (kind : RequestKind) : (v.target kind).1 = .error e ∨ (v.target kind).2 = v := by
  cases kind with
  | snapshot =>
    left
    simp only [target, snapshotStore, grows, failed]
    rfl
  | checkpoint =>
    cases last : v.legacy.generations.getLast? with
    | none =>
      left
      simp only [target, checkpointStore, grows, Legacy.latest, last, failed]
      rfl
    | some g =>
      right
      simp only [target, checkpointStore, grows, Legacy.latest, last]

namespace Backed

variable (h : v.Backed site looked)

include h

theorem noteTracker (tracker : Tracker) : ({ v with tracker } : Vault).Backed site looked :=
  ⟨h.opens, h.path, h.drops, h.storage, h.shelved⟩

theorem change {r : LogRecord} (fits : r.Fits) (id : LayerId) :
    ({ v with storage := (v.storage.change id r).2 } : Vault).Backed site looked :=
  ⟨h.opens, h.path, h.drops, (h.storage.change fits id).1,
    fun ready usable => (h.shelved ready usable).change fits id⟩

theorem putInto (fits : (LogRecord.put key value).Fits) (id : LayerId) :
    (v.putInto id key value).2.Backed site looked := h.change fits id

theorem remove (hash : NodeHash) : (v.remove hash).2.Backed site looked := by
  have fits : (LogRecord.remove hash.bytes).Fits := by
    simp [LogRecord.Fits, LogRecord.encode, hash.length_bytes]
  exact (h.change fits .main).noteTracker _

theorem selectEpoch (epoch : Epoch) : (v.selectEpoch epoch).Backed site looked := by
  have whole : v.storage.main.store.selectEpoch epoch = v.storage.main.store := by
    obtain ⟨main, found, file, records, own, -⟩ := h.storage.synced .main .main .main
    cases found
    rw [own]
    rfl
  unfold Vault.selectEpoch
  rw [whole]
  exact h

theorem closeLegacy : v.closeLegacy.2.Backed site looked := by
  by_cases active : v.legacy.phase = .active
  · have legacy := v.legacy_closeLegacy
    rw [if_pos active] at legacy
    have closed := h.storage.closeLayers (.ok ()) (.db :: v.legacy.generations.map Generation.layer)
    have storage := v.closeLegacy_eq.2.1
    rw [Legacy.unclosed, if_pos active] at storage
    refine ⟨h.opens, h.path, h.drops, ?_, fun _ usable => ?_⟩
    · rw [storage, legacy]
      refine closed.congr fun id w => ⟨fun stand => ?_, fun both => ?_⟩
      · have aside {id : LayerId} {w : Volume} (stand : v.legacy.Stands id w)
            (fixed : w.isFixed = true) (ne : id ≠ .db) :
            id ∉ LayerId.db :: v.legacy.generations.map Generation.layer := by
          rw [List.mem_cons, not_or]
          refine ⟨ne, fun mem => ?_⟩
          obtain ⟨g, inGenerations, rfl⟩ := List.mem_map.1 mem
          rw [h.storage.volume_unique stand (.generation inGenerations)] at fixed
          cases fixed
        cases stand with
        | main => exact ⟨aside .main rfl (by simp), .main⟩
        | checkpoints => exact ⟨aside .checkpoints rfl (by simp), .checkpoints⟩
        | db phase => cases phase
        | generation mem => cases mem
      · obtain ⟨other, stand⟩ := both
        cases stand with
        | main => exact .main
        | checkpoints => exact .checkpoints
        | db => simp at other
        | @generation g mem =>
          refine absurd (List.mem_cons_of_mem _ ?_) other
          exact List.mem_map_of_mem mem
    · rw [legacy] at usable
      simp [Legacy.usable] at usable
  · have same : v.closeLegacy.2 = v := by
      unfold Vault.closeLegacy Legacy.close
      rw [if_neg active]
    rw [same]
    exact h

theorem disable :
    ({ v with legacy := { v.legacy with disabled := true } } : Vault).Backed site looked := by
  refine ⟨h.opens, h.path, h.drops, ?_, fun _ usable => ?_⟩
  · exact h.storage.congr (Legacy.stands_congr rfl fun _ => Iff.rfl)
  · simp [Legacy.usable] at usable

theorem confirmEpoch (closed : Bool) (epoch : Epoch) :
    (v.confirmEpoch closed epoch).Backed site looked :=
  confirmEpoch_induction (P := Backed site looked) h (fun _ h => h.disable)
    (fun _ h => h.putInto (by decide) .main) (fun _ h => h.closeLegacy) closed epoch

theorem deliveries (closed : Bool) (deliveries : List (Unit × Epoch)) :
    (deliveries.foldl (fun v d => v.confirmEpoch closed d.2) v).Backed site looked :=
  deliveries_induction (P := Backed site looked) h (fun _ epoch h => h.confirmEpoch closed epoch)
    deliveries

/-- Looking for generations finds those that are there, and leaves the disk as it is. -/
theorem discover (bare : v.legacy.generations = []) :
    v.discover.Backed site true ∧ v.discover.storage.disk = v.storage.disk := by
  cases grows : v.growth? with
  | none =>
    have barred : v.legacy.usable = false := by
      by_contra usable
      rw [growth?_eq_some.2 ⟨Bool.eq_true_of_not_eq_false usable, h.path, h.opens⟩] at grows
      cases grows
    rw [discover_of_barred barred]
    refine ⟨⟨h.opens, h.path, h.drops, h.storage, fun _ usable => ?_⟩, rfl⟩
    rw [barred] at usable
    cases usable
  | some place =>
    obtain ⟨root, opener⟩ := place
    obtain ⟨-, path, opens⟩ := growth?_eq_some.1 grows
    cases path.symm.trans h.path
    cases opens.symm.trans h.opens
    obtain ⟨backed, disk, listed⟩ := h.storage.run fun id n stand => by
      obtain ⟨g, mem, -⟩ := Legacy.exists_of_stands stand
      rw [bare] at mem
      cases mem
    have row : Generation.Row (Discovery.run site.root .logged v.storage).1.generations site.root
        (Discovery.run site.root .logged v.storage).2 := Discovery.row_run v.storage
    have backed := backed.congr fun id w => Legacy.stands_adopt bare
    unfold Vault.discover
    rw [grows]
    refine ⟨⟨h.opens, h.path, h.drops, backed, fun _ _ => ⟨backed, fun n => ?_, row.ascending,
      row.path⟩⟩, disk⟩
    rw [disk]
    exact listed n

omit h in
/-- Whatever store is chosen for a copy, the disk has not failed to make it. -/
theorem target (h : v.Backed site true) (shelved : v.Shelved) (kind : RequestKind)
    (few : (v.target kind).2.legacy.nextId ≤ Generation.idBound)
    (healthy : (v.target kind).1 ≠ .error .io) : (v.target kind).2.Backed site true := by
  rcases v.target_cases kind with ⟨same, -⟩ | ⟨root, opener, answer, l', s', grows, made, same, -⟩
  · rw [same]
    exact h
  · obtain ⟨usable, path, opens⟩ := growth?_eq_some.1 grows
    cases path.symm.trans h.path
    cases opens.symm.trans h.opens
    have archived := h.shelved rfl usable
    have below (g : Generation) (mem : g ∈ v.legacy.generations) : g.id < v.legacy.nextId :=
      (shelved usable site.root path).below mem
    have keeps : v.retention = ⟨v.config.maxSnapshots, false⟩ := by
      rw [retention, h.drops]
    cases answer with
    | error e =>
      rcases error_of_create grows made kind with failed | still
      · rw [keeps] at made
        rw [failed, archived.create_error below made] at healthy
        exact absurd rfl healthy
      · rw [still]
        exact h
    | ok id =>
      have next : l'.nextId = v.legacy.nextId + 1 := by
        obtain ⟨-, -, rfl, -⟩ := Legacy.create_steps made
        rfl
      rw [same] at few ⊢
      have few : l'.nextId ≤ Generation.idBound := few
      rw [keeps] at made
      have created := archived.create below (by omega) made
      exact ⟨h.opens, h.path, h.drops, created.backed, fun _ _ => created⟩

/-- What walks read could be put again. -/
theorem fits_of_lookup (found : v.lookup key = some value) : (LogRecord.put key value).Fits := by
  rw [lookup_eq] at found
  obtain ⟨id, -, found⟩ := List.exists_of_findSome?_eq_some found
  exact h.storage.fits_of_peek found

theorem visit (closed : Bool) (w : Walk) (target : LayerId) (stack : List NodeHash) :
    (w.visit closed v target stack).2.Backed site looked := by
  have visited := Walk.visited closed w v target stack
  generalize w.visit closed v target stack = next at visited ⊢
  obtain ⟨w', v'⟩ := next
  simp only at visited ⊢
  cases visited with
  | unwritten _ _ read written =>
    have put := h.putInto (h.fits_of_lookup (Walk.lookup_of_readNode read)) target
    rw [written] at put
    exact put
  | copied _ _ read written =>
    have put := h.putInto (h.fits_of_lookup (Walk.lookup_of_readNode read)) target
    rw [written] at put
    cases w.request.kind with
    | snapshot => exact put
    | checkpoint => exact put.noteTracker _
  | _ => exact h

end Backed

end Vault

end TrieStorage

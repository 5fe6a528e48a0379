import TrieStorage.Proofs.Generation.Archive
import TrieStorage.Proofs.Generation.Retention
import TrieStorage.Proofs.Storage.Shut

/-!
# Layers over an archive

While a manager runs, each of its open layers stands for a store on disk: it writes to the log of
that store, and what it finds is what the log holds.  Every other layer is shut.  Whatever is
done to the layers keeps this, so what a manager reads can be told from the disk.
-/

namespace TrieStorage

namespace Storage

/-- Each layer stands for a store on disk and agrees with its log, or is shut; the three stores
of the data directory are there, and nothing is refused. -/
structure Backed (site : Site) (stands : LayerId → Volume → Prop) (s : Storage) : Prop where
  refusals : s.refusals = []
  archive : site.Archive s.disk
  synced : ∀ id v, stands id v →
    ∃ layer, s.layer? id = some layer ∧ site.Synced s.disk v layer.store
  single : ∀ id id' v, stands id v → stands id' v → id = id'
  shut : ∀ id layer, s.layer? id = some layer → (∃ v, stands id v) ∨ layer.store.IsShut
  founded : ∀ v, v.isFixed = true →
    ∃ file, s.disk.entry? (LoggedStore.logPath (site.dir v)) = some (.file file)

/-- Makes the change that a record stands for. -/
def change (s : Storage) (id : LayerId) : LogRecord → Except StoreError Unit × Storage
  | .put key value => s.put id key value
  | .remove key => s.remove id key

section

variable {s : Storage} {id : LayerId} {layer : Layer} (found : s.layer? id = some layer)

include found

/-- An open store on disk takes a record to the end of its log. -/
theorem change_of_open (refusals : s.refusals = []) {dir : String} {file : FileId} {table : Table}
    (own : layer.store = .logged ⟨dir, some file, table⟩) (r : LogRecord) :
    (s.change id r).1 = .ok () ∧
      ∃ layer', layer'.store = .logged ⟨dir, some file, r.apply table⟩ ∧
        (s.change id r).2 =
          { s with disk := s.disk.append file (Frame.write r.encode) }.setLayer id layer' := by
  have free (call : Call) (key : Bytes) :
      s.refusals.refuse layer.name call (some key) = false := by
    rw [refusals]
    rfl
  cases r with
  | put key value =>
    simp only [change, Storage.put, found, Layer.put, free, Bool.false_eq_true, if_false, own,
      Store.put, LoggedStore.put, LoggedStore.append]
    exact ⟨trivial, _, rfl, rfl⟩
  | remove key =>
    simp only [change, Storage.remove, found, Layer.remove, free, Bool.false_eq_true, if_false, own,
      Store.remove, LoggedStore.remove, LoggedStore.append]
    exact ⟨trivial, _, rfl, rfl⟩

theorem change_of_isShut (shut : layer.store.IsShut) (r : LogRecord) :
    ∃ layer', layer'.store = layer.store ∧ (s.change id r).2 = s.setLayer id layer' := by
  cases r with
  | put key value =>
    obtain ⟨store, disk⟩ := Layer.put_of_isShut shut s.refusals s.disk key value
    refine ⟨_, store, ?_⟩
    simp only [change, put_eq found, disk]
  | remove key =>
    obtain ⟨store, disk⟩ := Layer.remove_of_isShut shut s.refusals s.disk key
    refine ⟨_, store, ?_⟩
    simp only [change, Storage.remove, found, disk]

end

namespace Backed

variable {site : Site} {stands stands' : LayerId → Volume → Prop} {s s' : Storage}
  {id : LayerId} {v w : Volume} {n : Nat} {key : Bytes}

theorem congr (h : s.Backed site stands) (same : ∀ id v, stands' id v ↔ stands id v) :
    s.Backed site stands' := by
  obtain rfl : stands' = stands := funext fun id => funext fun v => propext (same id v)
  exact h

/-- A layer stands for one store. -/
theorem volume_unique (h : s.Backed site stands) (stand : stands id v) (stand' : stands id w) :
    v = w := by
  obtain ⟨layer, found, file, records, own, -, log⟩ := h.synced id v stand
  obtain ⟨layer', found', file', records', own', -, log'⟩ := h.synced id w stand'
  cases found.symm.trans found'
  rw [own] at own'
  simp only [Store.logged.injEq, LoggedStore.mk.injEq, Option.some.injEq] at own'
  obtain ⟨-, rfl, -⟩ := own'
  exact h.archive.single v w file ( Disk.entryAt?_place_of_entry? log.named)
    ( Disk.entryAt?_place_of_entry? log'.named)

/-! ## Reading -/

theorem peek (h : s.Backed site stands) (stand : stands id v) (key : Bytes) :
    s.peek id key = site.read s.disk v key := by
  obtain ⟨layer, found, synced⟩ := h.synced id v stand
  obtain ⟨table, load, got⟩ := synced.load
  have free : s.refusals.refuse layer.name .get (some key) = false := by
    rw [h.refusals]
    rfl
  unfold Storage.peek Storage.get Layer.get Site.read
  simp only [found, free, load, got, Bool.false_eq_true, if_false]
  cases table.get? key with
  | none => rfl
  | some value =>
    cases empty : value.isEmpty <;> simp [Option.filter, empty]

/-- What is found could be put again. -/
theorem fits_of_peek (h : s.Backed site stands) {value : Bytes}
    (found : s.peek id key = some value) : (LogRecord.put key value).Fits := by
  unfold Storage.peek Storage.get at found
  cases known : s.layer? id with
  | none => simp [known] at found
  | some layer =>
    have free : s.refusals.refuse layer.name .get (some key) = false := by
      rw [h.refusals]
      rfl
    simp only [known, Layer.get, free, Bool.false_eq_true, if_false] at found
    have got : layer.store.get key = .ok (some value) := by
      split at found
      · next got =>
        split at found
        · cases found
        · cases found
          exact got
      · cases found
      · cases found
    rcases h.shut id layer known with ⟨v, stand⟩ | shut
    · obtain ⟨layer', same, synced⟩ := h.synced id v stand
      cases known.symm.trans same
      exact synced.fits got
    · rw [shut.get] at got
      cases got

/-! ## Changes of one layer -/

/-- One layer is changed, and the disk in a way that other layers do not notice. -/
theorem update (h : s.Backed site stands) {disk : Disk} {layer : Layer}
    (known : (s.layer? id).isSome) (archive : site.Archive disk)
    (kept : ∀ w, ¬ stands id w → site.KeepsLog w s.disk disk)
    (founded : ∀ w, stands id w →
      ∃ file, disk.entry? (LoggedStore.logPath (site.dir w)) = some (.file file))
    (less : ∀ id v, stands' id v → stands id v)
    (others : ∀ id' v, id' ≠ id → stands id' v → stands' id' v)
    (own : ∀ v, stands' id v → site.Synced disk v layer.store)
    (shut : (∃ v, stands' id v) ∨ layer.store.IsShut) :
    ({ s with disk }.setLayer id layer).Backed site stands' := by
  have self : ({ s with disk }.setLayer id layer).layer? id = some layer :=
    layer?_setLayer_self (by rw [layer?_disk]; exact known) layer
  have rest {id' : LayerId} (ne : id' ≠ id) :
      ({ s with disk }.setLayer id layer).layer? id' = s.layer? id' :=
    (layer?_setLayer_of_ne ne layer).trans (s.layer?_disk disk id')
  refine ⟨(refusals_setLayer ..).trans h.refusals, ?_, fun id' w stand => ?_,
    fun id₁ id₂ w first second => h.single id₁ id₂ w (less _ _ first) (less _ _ second),
    fun id' layer' found => ?_, fun w fixed => ?_⟩
  all_goals try rw [disk_setLayer]
  · exact archive
  · by_cases same : id' = id
    · subst same
      exact ⟨layer, self, own w stand⟩
    · obtain ⟨layer', found, synced⟩ := h.synced id' w (less _ _ stand)
      refine ⟨layer', (rest same).trans found, synced.keeps (kept w ?_)⟩
      intro stand'
      exact same (h.single id' id w (less _ _ stand) stand')
  · by_cases same : id' = id
    · subst same
      cases self.symm.trans found
      exact shut
    · rw [rest same] at found
      refine (h.shut id' layer' found).imp_left ?_
      rintro ⟨w, stand⟩
      exact ⟨w, others id' w same stand⟩
  · by_cases stand : stands id w
    · exact founded w stand
    · obtain ⟨file, named⟩ := h.founded w fixed
      obtain ⟨records, -, log⟩ := h.archive.hasLog named
      exact ⟨file, (kept w stand file _ log).named⟩

/-- A change that leaves the store of a layer and the disk alone. -/
theorem touch (h : s.Backed site stands) {layer layer' : Layer}
    (found : s.layer? id = some layer) (same : layer'.store = layer.store) :
    (s.setLayer id layer').Backed site stands := by
  refine h.update (Option.isSome_of_eq_some found) h.archive (fun _ _ _ _ log => log)
    (fun w stand => ?_) (fun _ _ stand => stand) (fun _ _ _ stand => stand)
    (fun w stand => ?_) ?_
  · obtain ⟨_, _, synced⟩ := h.synced id w stand
    exact synced.founded
  · obtain ⟨layer₁, found₁, synced⟩ := h.synced id w stand
    cases found.symm.trans found₁
    rw [same]
    exact synced
  · rw [same]
    exact h.shut id layer found

/-- A record goes to the end of one log, if the layer stands for a store; otherwise nothing
happens on disk. -/
theorem change (h : s.Backed site stands) {r : LogRecord} (fits : r.Fits) (id : LayerId) :
    (s.change id r).2.Backed site stands ∧
      ((s.change id r).2.disk = s.disk ∨
        ∃ file, (s.change id r).2.disk = s.disk.append file (Frame.write r.encode)) := by
  cases found : s.layer? id with
  | none =>
    have same : (s.change id r).2 = s := by
      cases r <;> simp only [Storage.change, Storage.put, Storage.remove, found]
    rw [same]
    exact ⟨h, .inl rfl⟩
  | some layer =>
    rcases h.shut id layer found with ⟨v, stand⟩ | shut
    · obtain ⟨layer₁, found₁, file, records, own, fit, log⟩ := h.synced id v stand
      cases found.symm.trans found₁
      obtain ⟨-, layer', store, same⟩ := change_of_open found h.refusals own r
      have there := Disk.entryAt?_place_of_entry? log.named
      have synced : site.Synced (s.disk.append file (Frame.write r.encode)) v layer'.store := by
        refine ⟨file, records ++ [r], ?_, LogRecord.fits_concat fit fits, ?_⟩
        · rw [store, List.foldl_append]
          rfl
        · rw [Log.write_append, Log.write_singleton]
          exact log.append _
      have sync {w : Volume} (stand' : stands id w) :
          site.Synced (s.disk.append file (Frame.write r.encode)) w layer'.store := by
        rw [h.volume_unique stand' stand]
        exact synced
      rw [same, disk_setLayer]
      refine ⟨?_, .inr ⟨file, rfl⟩⟩
      refine h.update (Option.isSome_of_eq_some found) (h.archive.append fits file)
        (fun w other => ?_) (fun w stand' => ?_) (fun _ _ stand => stand)
        (fun _ _ _ stand => stand) (fun w => sync) (.inl ⟨v, stand⟩)
      · apply h.archive.keepsLog_append there
        rintro rfl
        exact other stand
      · exact (sync stand').founded
    · obtain ⟨layer', store, same⟩ := change_of_isShut found shut r
      rw [same, disk_setLayer]
      exact ⟨h.touch found store, .inl rfl⟩

theorem put (h : s.Backed site stands) {key value : Bytes} (fits : (LogRecord.put key value).Fits)
    (id : LayerId) : (s.put id key value).2.Backed site stands :=
  (h.change fits id).1

/-- Only what is under the key of the record is read anew. -/
theorem read_change (h : s.Backed site stands) {r : LogRecord} (fits : r.Fits) (id : LayerId)
    (other : r.key ≠ key) (v : Volume) :
    site.read (s.change id r).2.disk v key = site.read s.disk v key := by
  rcases (h.change fits id).2 with same | ⟨file, same⟩
  · rw [same]
  · rw [same]
    exact h.archive.read_append fits file other v

theorem shelves_change (h : s.Backed site stands) {r : LogRecord} (fits : r.Fits) (id : LayerId)
    (n : Nat) : site.Shelves (s.change id r).2.disk n ↔ site.Shelves s.disk n := by
  rcases (h.change fits id).2 with same | ⟨file, same⟩
  · rw [same]
  · rw [same]
    exact Iff.rfl

/-! ## Closing -/

/-- A layer that has been closed stands for nothing any more. -/
theorem close (h : s.Backed site stands) (id : LayerId) :
    (s.close id).2.Backed site fun id' v => id' ≠ id ∧ stands id' v := by
  cases found : s.layer? id with
  | none =>
    rw [s.close_of_none found]
    refine h.congr fun id' v => and_iff_right_of_imp ?_
    rintro stand rfl
    obtain ⟨layer, known, -⟩ := h.synced _ v stand
    cases found.symm.trans known
  | some layer =>
    have free : s.refusals.refuse layer.name .close none = false := by
      rw [h.refusals]
      rfl
    have shut : (layer.close s.refusals).2.store.IsShut := by
      simp only [Layer.close, free, Bool.false_eq_true, if_false]
      rcases h.shut id layer found with ⟨v, stand⟩ | shut
      · obtain ⟨layer₁, found₁, file, records, own, -⟩ := h.synced id v stand
        cases found.symm.trans found₁
        rw [own]
        rfl
      · exact shut.close
    rw [s.close_eq found]
    refine h.update (Option.isSome_of_eq_some found) h.archive (fun _ _ _ _ log => log)
      (fun w stand => ?_) (fun _ _ stand => stand.2) (fun _ _ ne stand => ⟨ne, stand⟩)
      (fun _ stand => absurd rfl stand.1) (.inr shut)
    obtain ⟨_, _, synced⟩ := h.synced id w stand
    exact synced.founded

/-! ## Generations -/

theorem openGeneration (h : s.Backed site stands) {answer : LayerId}
    (opening : s.openGeneration .logged (site.dir (.generation n)) = (.ok answer, s'))
    (small : n < Generation.idBound) (fresh : ∀ id, ¬ stands id (.generation n)) :
    answer = .generation s.opened.length ∧
      (s'.Backed site fun id v => stands id v ∨ id = answer ∧ v = .generation n) ∧
      ∀ k, site.Shelves s'.disk k ↔ site.Shelves s.disk k ∨ k = n := by
  obtain ⟨store, disk, opened, rfl, rfl⟩ := openGeneration_eq_ok opening
  obtain ⟨archive, synced⟩ := h.archive.openAt opened (by simp [small])
  have kept (w : Volume) : site.KeepsLog w s.disk disk :=
    Site.keepsLog_of_filed (Disk.filed_openAt opened) w
  have grows := s.grows_append (Disk.extends_openAt opened)
    { name := .generation (Path.lastName (site.dir (.generation n))), store }
  have self : ({ s with disk, opened := s.opened ++
      [{ name := .generation (Path.lastName (site.dir (.generation n))), store }]
      } : Storage).layer? (.generation s.opened.length) = some { name := _, store } :=
    List.getElem?_concat_length
  refine ⟨rfl, ⟨h.refusals, archive, ?_, ?_, ?_, ?_⟩, fun k => ?_⟩
  · rintro id v (stand | ⟨rfl, rfl⟩)
    · obtain ⟨layer, found, synced⟩ := h.synced id v stand
      exact ⟨layer, (grows.layer id (Option.isSome_of_eq_some found)).trans found,
        synced.keeps (kept v)⟩
    · exact ⟨_, self, synced⟩
  · rintro id id' v (stand | ⟨rfl, rfl⟩) (stand' | ⟨rfl, same⟩)
    · exact h.single id id' v stand stand'
    · rw [same] at stand
      exact absurd stand (fresh id)
    · exact absurd stand' (fresh id')
    · rfl
  · intro id layer found
    rcases layer?_append found with before | ⟨own, -⟩
    · refine (h.shut id layer before).imp_left ?_
      rintro ⟨v, stand⟩
      exact ⟨v, .inl stand⟩
    · exact .inl ⟨.generation n, .inr ⟨own, rfl⟩⟩
  · intro v fixed
    obtain ⟨file, named⟩ := h.founded v fixed
    exact ⟨file, grows.disk.entry? named⟩
  · rw [h.archive.shelves_openAt opened]
    simp [eq_comm]

/-- A generation that is dropped takes nothing else with it. -/
theorem dropGeneration (h : s.Backed site stands) {g : Generation}
    (stand : stands g.layer (.generation g.id)) (path : g.path = site.dir (.generation g.id))
    (there : site.Shelves s.disk g.id) :
    ((Legacy.dropGeneration false g s).Backed site fun id v => id ≠ g.layer ∧ stands id v) ∧
      ∀ k, site.Shelves (Legacy.dropGeneration false g s).disk k ↔
        site.Shelves s.disk k ∧ k ≠ g.id := by
  have closed := h.close g.layer
  obtain ⟨disk, removed, archive, shelves, kept⟩ := h.archive.removeTree there
  have same : Legacy.dropGeneration false g s = { (s.close g.layer).2 with disk } := by
    unfold Legacy.dropGeneration
    simp only [Bool.false_eq_true, if_false, s.disk_close, path, removed]
  have keeps {v : Volume} (other : v ≠ .generation g.id) :
      site.KeepsLog v (s.close g.layer).2.disk disk := by
    rw [s.disk_close]
    exact kept v other
  rw [same]
  refine ⟨⟨closed.refusals, archive, ?_, closed.single, fun id layer found => ?_, ?_⟩, shelves⟩
  · rintro id v ⟨ne, stand'⟩
    obtain ⟨layer, found, synced⟩ := closed.synced id v ⟨ne, stand'⟩
    refine ⟨layer, (layer?_disk _ disk id).trans found, synced.keeps (keeps ?_)⟩
    rintro rfl
    exact ne (h.single id g.layer _ stand' stand)
  · rw [layer?_disk] at found
    exact closed.shut id layer found
  · intro v fixed
    obtain ⟨file, named⟩ := closed.founded v fixed
    obtain ⟨records, -, log⟩ := closed.archive.hasLog named
    refine ⟨file, (keeps ?_ file _ log).named⟩
    rintro rfl
    cases fixed

end Backed

end Storage

end TrieStorage

import TrieStorage.Proofs.Generation.Numbering
import TrieStorage.Proofs.Log.Replay
import TrieStorage.Proofs.Store.Addressed

/-!
# Copies of addressed values

Copies go into the checkpoint store and into generations.  A generation that is made starts out
empty: its number has not been taken, so if its directory holds a log that was made earlier, by
an attempt that failed, nothing has been written to that.  For this it has to be known of every
file made since the start which name it has, and of every layer that is copied into that its
log has not the name of a log that is still to be opened.
-/

namespace TrieStorage

/-- A layer that a manager is given. -/
def LayerId.isGiven : LayerId → Bool
  | .generation _ => false
  | _ => true

/-- The place of the log of a generation. -/
def Disk.logOn (shelf : Path) (n : Nat) : Path := shelf ++ [toString n, LoggedStore.logName]

theorem Disk.logOn_inj {shelf : Path} {n k : Nat} (same : logOn shelf n = logOn shelf k) :
    n = k := by
  have names := List.append_cancel_left same
  exact Path.toString_inj (List.cons.inj names).1

theorem Disk.place_logPath_pathOf (disk : Disk) (root : String) (n : Nat) :
    disk.place (LoggedStore.logPath (Generation.pathOf root n)) = logOn (disk.shelf root) n := by
  rw [place_logPath (pathOf_ne root n), place_pathOf]
  simp [logOn]

namespace Storage

section

variable (first : FileId) (scheme : Scheme) (shelf : Path) (next : Nat) (s : Storage)

/-- Nothing but copies is put into the store: it is the checkpoint store, or that of a
generation and has no log from before the files were counted. -/
def Fresh (id : LayerId) (store : Store) : Prop :=
  id = .checkpoints ∨ id.isGiven = false ∧ ∀ file, store.log? = some file → first ≤ file

/-- What is known of a storage when the files from number `first` on have been made since the
start, and no generation from number `next` on has been made. -/
structure Vetted : Prop where
  made : first ≤ s.disk.files.length
  named : ∀ p file, s.disk.entryAt? p = some (.file file) → file < s.disk.files.length
  single : ∀ p q file, first ≤ file → s.disk.entryAt? p = some (.file file) →
    s.disk.entryAt? q = some (.file file) → p = q
  unwritten : ∀ n file, next ≤ n → first ≤ file →
    s.disk.entryAt? (Disk.logOn shelf n) = some (.file file) → s.disk.content file = []
  given : ∀ id layer, id.isGiven = true → s.layer? id = some layer →
    ∀ file, layer.store.log? = some file → file < first
  logs : ∀ id layer, s.layer? id = some layer →
    ∀ file, layer.store.log? = some file → file < s.disk.files.length
  addressed : ∀ id layer, s.layer? id = some layer → Fresh first id layer.store →
    layer.store.Addressed scheme

/-- The layer has been opened, and its log has not the name of one that is still to be opened. -/
structure Settled (id : LayerId) : Prop where
  known : (s.layer? id).isSome
  apart : ∀ layer, s.layer? id = some layer → ∀ file, layer.store.log? = some file →
    first ≤ file → ∀ n, next ≤ n → s.disk.entryAt? (Disk.logOn shelf n) ≠ some (.file file)

/-- The log of the layer has, if any, the name that belongs to the generation of a number. -/
structure Housed (id : LayerId) (n : Nat) : Prop where
  known : (s.layer? id).isSome
  own : ∀ layer, s.layer? id = some layer → ∀ file, layer.store.log? = some file →
    first ≤ file → ∀ p, s.disk.entryAt? p = some (.file file) → p = Disk.logOn shelf n

end

/-- Files are made and layers opened; what is open writes to the same log or to none, and unless
it is the main store, it takes in nothing but copies. -/
structure Ages (scheme : Scheme) (s s' : Storage) : Prop where
  workDir : s'.disk.workDir = s.disk.workDir
  files : s.disk.files.length ≤ s'.disk.files.length
  names : ∀ p file, s'.disk.entryAt? p = some (.file file) →
    s.disk.entryAt? p = some (.file file) ∨ s.disk.files.length ≤ file
  layers : ∀ id layer, s.layer? id = some layer → ∃ layer', s'.layer? id = some layer' ∧
    (∀ file, layer'.store.log? = some file → layer.store.log? = some file) ∧
    (id ≠ .main → layer.store.Gains scheme layer'.store)

variable {first : FileId} {scheme : Scheme} {shelf : Path} {next next' n : Nat}
  {s s' s'' : Storage} {id : LayerId} {layer layer' : Layer}

namespace Ages

theorem refl (s : Storage) : s.Ages scheme s :=
  ⟨rfl, Nat.le_refl _, fun _ _ => .inl, fun _ layer found =>
    ⟨layer, found, fun _ => id, fun _ => .refl layer.store⟩⟩

theorem trans (h : s.Ages scheme s') (h' : s'.Ages scheme s'') : s.Ages scheme s'' := by
  refine ⟨h'.workDir.trans h.workDir, Nat.le_trans h.files h'.files, fun p file there => ?_,
    fun id layer found => ?_⟩
  · rcases h'.names p file there with old | new
    · exact h.names p file old
    · exact .inr (Nat.le_trans h.files new)
  · obtain ⟨layer', found', log, gains⟩ := h.layers id layer found
    obtain ⟨layer'', found'', log', gains'⟩ := h'.layers id layer' found'
    exact ⟨layer'', found'', fun file last => log file (log' file last),
      fun other => (gains other).trans (gains' other)⟩

end Ages

theorem Vetted.mono (h : s.Vetted first scheme shelf next) (le : next ≤ next') :
    s.Vetted first scheme shelf next' :=
  { h with unwritten := fun n file later => h.unwritten n file (Nat.le_trans le later) }

/-- What a layer writes to has a name that it had when the storage was younger. -/
theorem Ages.name (ages : s.Ages scheme s') (h : s.Vetted first scheme shelf next) {file : FileId}
    (found : s.layer? id = some layer) (found' : s'.layer? id = some layer')
    (log : layer'.store.log? = some file) :
    layer.store.log? = some file ∧
      ∀ p, s'.disk.entryAt? p = some (.file file) → s.disk.entryAt? p = some (.file file) := by
  obtain ⟨_, same, keeps, -⟩ := ages.layers id layer found
  cases same.symm.trans found'
  have before := keeps file log
  refine ⟨before, fun p there => ?_⟩
  rcases ages.names p file there with old | new
  · exact old
  · exact absurd (h.logs id layer found file before) (Nat.not_lt.2 new)

theorem Settled.ages (settled : s.Settled first shelf next id)
    (h : s.Vetted first scheme shelf next) (ages : s.Ages scheme s') (le : next ≤ next') :
    s'.Settled first shelf next' id := by
  obtain ⟨layer, found⟩ := Option.isSome_iff_exists.1 settled.known
  obtain ⟨layer', found', -⟩ := ages.layers id layer found
  refine ⟨Option.isSome_of_eq_some found', fun x same file log new n later there => ?_⟩
  cases found'.symm.trans same
  obtain ⟨before, named⟩ := ages.name h found found' log
  exact settled.apart layer found file before new n (Nat.le_trans le later) (named _ there)

theorem Housed.ages (housed : s.Housed first shelf id n) (h : s.Vetted first scheme shelf next)
    (ages : s.Ages scheme s') : s'.Housed first shelf id n := by
  obtain ⟨layer, found⟩ := Option.isSome_iff_exists.1 housed.known
  obtain ⟨layer', found', -⟩ := ages.layers id layer found
  refine ⟨Option.isSome_of_eq_some found', fun x same file log new p there => ?_⟩
  cases found'.symm.trans same
  obtain ⟨before, named⟩ := ages.name h found found' log
  exact housed.own layer found file before new p (named p there)

theorem Housed.settled (h : s.Housed first shelf id n) (lt : n < next) :
    s.Settled first shelf next id := by
  refine ⟨h.known, fun layer found file log new k later there => ?_⟩
  have same := Disk.logOn_inj (h.own layer found file log new _ there)
  omega

theorem Vetted.settled_of_isGiven (h : s.Vetted first scheme shelf next)
    (given : id.isGiven = true) : s.Settled first shelf next id := by
  have known : (s.layer? id).isSome := by cases id <;> first | rfl | cases given
  refine ⟨known, fun layer found file log new => ?_⟩
  exact absurd (h.given id layer given found file log) (Nat.not_lt.2 new)

/-! ## Changes of one layer -/

/-- A layer has been changed, its log has at most been let go of, and the disk has at most lost
names and gained content in its log. -/
structure Touched (s : Storage) (id : LayerId) (layer layer' : Layer) (disk : Disk) : Prop where
  found : s.layer? id = some layer
  workDir : disk.workDir = s.disk.workDir
  files : disk.files.length = s.disk.files.length
  names : ∀ p file, disk.entryAt? p = some (.file file) → s.disk.entryAt? p = some (.file file)
  content : ∀ file, layer.store.log? ≠ some file → disk.content file = s.disk.content file
  log : ∀ file, layer'.store.log? = some file → layer.store.log? = some file

theorem layer?_touched (s : Storage) {disk : Disk} (found : s.layer? id = some layer)
    (layer' : Layer) (other : LayerId) :
    ({ s with disk }.setLayer id layer').layer? other =
      if other = id then some layer' else s.layer? other := by
  have found : { s with disk }.layer? id = some layer := (s.layer?_disk disk id).trans found
  split
  · next own =>
    rw [own]
    exact layer?_setLayer_self (Option.isSome_of_eq_some found) layer'
  · next ne => exact (layer?_setLayer_of_ne ne layer').trans (s.layer?_disk disk other)

namespace Touched

variable {disk : Disk} (touched : s.Touched id layer layer' disk)

include touched

/-- It is enough that the layer is the main store, or takes in nothing but copies. -/
theorem ages (gains : id ≠ .main → layer.store.Gains scheme layer'.store) :
    s.Ages scheme ({ s with disk }.setLayer id layer') := by
  have same := disk_setLayer { s with disk } id layer'
  refine ⟨?_, ?_, fun p file there => ?_, fun other x found => ?_⟩
  · rw [same]
    exact touched.workDir
  · rw [same]
    exact Nat.le_of_eq touched.files.symm
  · rw [same] at there
    exact .inl (touched.names p file there)
  · rw [s.layer?_touched touched.found]
    split
    · next own =>
      subst own
      cases touched.found.symm.trans found
      exact ⟨layer', rfl, touched.log, gains⟩
    · exact ⟨x, found, fun _ log => log, fun _ => .refl x.store⟩

/-- It is enough that the layer is not one whose log is still to be opened, and that nothing but
what copies may put has been put into it. -/
theorem vetted (h : s.Vetted first scheme shelf next)
    (content : disk = s.disk ∨ s.Settled first shelf next id)
    (addressed : (Fresh first id layer.store → layer.store.Addressed scheme) →
      Fresh first id layer'.store → layer'.store.Addressed scheme) :
    ({ s with disk }.setLayer id layer').Vetted first scheme shelf next := by
  have same := disk_setLayer { s with disk } id layer'
  have layers (other : LayerId) : ({ s with disk }.setLayer id layer').layer? other =
      if other = id then some layer' else s.layer? other :=
    s.layer?_touched touched.found layer' other
  generalize { s with disk }.setLayer id layer' = s' at same layers ⊢
  subst same
  refine ⟨?_, ?_, ?_, ?_, ?_, ?_, ?_⟩
  · rw [touched.files]
    exact h.made
  · intro p file there
    rw [touched.files]
    exact h.named p file (touched.names p file there)
  · intro p q file new there there'
    exact h.single p q file new (touched.names p file there) (touched.names q file there')
  · intro n file later new there
    have before := touched.names _ file there
    have untouched : s'.disk.content file = s.disk.content file := by
      rcases content with kept | settled
      · rw [kept]
      · refine touched.content file fun log => ?_
        exact settled.apart layer touched.found file log new n later before
    rw [untouched]
    exact h.unwritten n file later new before
  · intro other x given found file log
    rw [layers] at found
    split at found
    · next own =>
      subst own
      cases found
      exact h.given other layer given touched.found file (touched.log file log)
    · exact h.given other x given found file log
  · intro other x found file log
    rw [touched.files]
    rw [layers] at found
    split at found
    · next own =>
      subst own
      cases found
      exact h.logs other layer touched.found file (touched.log file log)
    · exact h.logs other x found file log
  · intro other x found fresh
    rw [layers] at found
    split at found
    · next own =>
      subst own
      cases found
      exact addressed (h.addressed other layer touched.found) fresh
    · exact h.addressed other x found fresh

end Touched

theorem content_append {disk : Disk} {file other : FileId} (ne : other ≠ file) (bytes : Bytes) :
    (disk.append file bytes).content other = disk.content other := by
  simp [Disk.content, Disk.append, Ne.symm ne]

/-- A layer that has written to its log, or not at all. -/
theorem touched_of_wrote (found : s.layer? id = some layer) {disk : Disk}
    (wrote : Store.Wrote layer.store.log? s.disk disk)
    (log : ∀ file, layer'.store.log? = some file → layer.store.log? = some file) :
    s.Touched id layer layer' disk := by
  rcases wrote with rfl | ⟨own, bytes, same, rfl⟩
  · exact ⟨found, rfl, rfl, fun _ _ there => there, fun _ _ => rfl, log⟩
  · refine ⟨found, rfl, ?_, fun _ _ there => there, fun file other => ?_, log⟩
    · simp [Disk.append]
    · refine content_append (fun own => other ?_) bytes
      rw [same, own]

theorem touched_put (found : s.layer? id = some layer) (key value : Bytes) :
    s.Touched id layer (layer.put s.refusals s.disk key value).2.1
      (layer.put s.refusals s.disk key value).2.2 := by
  refine touched_of_wrote found ?_ fun file => ?_
  all_goals
    rcases layer.put_cases s.refusals s.disk key value with ⟨store, disk, -⟩ | ⟨store, disk, -⟩
  · exact .inl disk
  · rw [disk]
    exact Store.wrote_put
  · rw [store]
    exact fun log => log
  · rw [store, Store.log?_put]
    exact fun log => log

theorem gains_layer_put {key value : Bytes} (admitted : scheme.Admits key value) (layer : Layer)
    (refusals : Refusals) (disk : Disk) :
    layer.store.Gains scheme (layer.put refusals disk key value).2.1.store := by
  rcases layer.put_cases refusals disk key value with ⟨store, -⟩ | ⟨store, -⟩
  · rw [store]
    exact .refl layer.store
  · rw [store]
    exact Store.gains_put admitted

theorem ages_put (s : Storage) {id : LayerId} {key value : Bytes}
    (admitted : id = .main ∨ scheme.Admits key value) : s.Ages scheme (s.put id key value).2 := by
  cases found : s.layer? id with
  | none =>
    rw [put_of_none found]
    exact .refl s
  | some layer =>
    rw [put_eq found]
    refine (touched_put found key value).ages fun other => ?_
    exact gains_layer_put (admitted.resolve_left other) layer s.refusals s.disk

/-- A put brings nothing in that copies may not put, unless it goes to a layer that does not
matter; and it is not seen in a log that is still to be opened, unless it fails. -/
theorem Vetted.put (h : s.Vetted first scheme shelf next) {key value : Bytes}
    (admitted : id = .main ∨ scheme.Admits key value)
    (unseen : s.Settled first shelf next id ∨ ∃ e, (s.put id key value).1 = .error e) :
    (s.put id key value).2.Vetted first scheme shelf next := by
  cases found : s.layer? id with
  | none =>
    rw [put_of_none found]
    exact h
  | some layer =>
    rw [put_eq found] at unseen ⊢
    have quiet : (layer.put s.refusals s.disk key value).2.2 = s.disk ∨
        s.Settled first shelf next id := by
      rcases unseen with settled | ⟨e, failed⟩
      · exact .inr settled
      · rcases layer.put_cases s.refusals s.disk key value with ⟨-, disk, -⟩ | ⟨-, disk, answer⟩
        · exact .inl disk
        · rw [disk]
          exact .inl (Store.disk_of_put_error (answer.symm.trans failed))
    refine (touched_put found key value).vetted h quiet fun addressed fresh => ?_
    rcases layer.put_cases s.refusals s.disk key value with ⟨store, -⟩ | ⟨store, -⟩
    · rw [store] at fresh ⊢
      exact addressed fresh
    · rw [store] at fresh ⊢
      have before : Fresh first id layer.store := by
        unfold Fresh at fresh ⊢
        rw [Store.log?_put] at fresh
        exact fresh
      rcases admitted with rfl | admitted
      · rcases before with same | ⟨same, -⟩ <;> cases same
      · exact (addressed before).gains (Store.gains_put admitted)

theorem touched_remove (found : s.layer? id = some layer) (key : Bytes) :
    s.Touched id layer (layer.remove s.refusals s.disk key).2.1
      (layer.remove s.refusals s.disk key).2.2 := by
  refine touched_of_wrote found ?_ fun file => ?_
  all_goals
    rcases layer.remove_cases s.refusals s.disk key with ⟨store, disk⟩ | ⟨store, disk⟩
  · exact .inl disk
  · rw [disk]
    exact Store.wrote_remove
  · rw [store]
    exact fun log => log
  · rw [store, Store.log?_remove]
    exact fun log => log

theorem ages_remove_main (s : Storage) (key : Bytes) : s.Ages scheme (s.remove .main key).2 :=
  (touched_remove (show s.layer? .main = some s.main from rfl) key).ages fun other =>
    absurd rfl other

theorem Vetted.remove_main (h : s.Vetted first scheme shelf next) (key : Bytes) :
    (s.remove .main key).2.Vetted first scheme shelf next := by
  refine (touched_remove (show s.layer? .main = some s.main from rfl) key).vetted h
    (.inr (h.settled_of_isGiven rfl)) fun _ fresh => ?_
  rcases fresh with same | ⟨same, -⟩ <;> cases same

theorem touched_close (found : s.layer? id = some layer) :
    s.Touched id layer (layer.close s.refusals).2 s.disk := by
  refine ⟨found, rfl, rfl, fun _ _ there => there, fun _ _ => rfl, fun file => ?_⟩
  rcases layer.close_cases s.refusals with store | store
  · rw [store]
    exact fun log => log
  · rw [store, Store.log?_close]
    exact nofun

theorem ages_close (s : Storage) (id : LayerId) : s.Ages scheme (s.close id).2 := by
  cases found : s.layer? id with
  | none =>
    rw [close_of_none s found]
    exact .refl s
  | some layer =>
    rw [close_eq s found]
    refine (touched_close found).ages fun _ => ?_
    rcases layer.close_cases s.refusals with store | store
    · rw [store]
      exact .refl layer.store
    · rw [store]
      exact Store.gains_close

theorem Vetted.close (h : s.Vetted first scheme shelf next) (id : LayerId) :
    (s.close id).2.Vetted first scheme shelf next := by
  cases found : s.layer? id with
  | none =>
    rw [close_of_none s found]
    exact h
  | some layer =>
    rw [close_eq s found]
    refine (touched_close found).vetted h (.inl rfl) fun addressed fresh => ?_
    rcases layer.close_cases s.refusals with store | store
    · rw [store] at fresh ⊢
      exact addressed fresh
    · rw [store] at fresh ⊢
      cases log : layer.store.log? with
      | some file => exact Store.addressed_close_of_log log
      | none =>
        have before : Fresh first id layer.store := by
          refine fresh.imp_right fun old => ⟨old.1, fun file own => ?_⟩
          rw [log] at own
          cases own
        exact (addressed before).gains Store.gains_close

theorem touched_selectEpoch (s : Storage) (epoch : Epoch) :
    s.Touched .main s.main { s.main with store := s.main.store.selectEpoch epoch } s.disk := by
  refine ⟨rfl, rfl, rfl, fun _ _ there => there, fun _ _ => rfl, fun file log => ?_⟩
  rw [Store.log?_selectEpoch] at log
  exact log

/-! ## Generations -/

/-- A layer that stays as it is, while names are removed. -/
theorem touched_removeTree {text : String} {disk : Disk}
    (removed : s.disk.removeTree text = some disk) : s.Touched .main s.main s.main disk := by
  have files := Disk.files_removeTree removed
  refine ⟨rfl, (Disk.removeTree_eq_some removed).1, by rw [files], fun p file there => ?_,
    fun file _ => ?_, fun _ log => log⟩
  · exact Disk.entryAt?_of_removeTree removed there
  · unfold Disk.content
    rw [files]

theorem Vetted.dropGeneration (h : s.Vetted first scheme shelf next) (keepOnDisk : Bool)
    (g : Generation) : (Legacy.dropGeneration keepOnDisk g s).Vetted first scheme shelf next ∧
      s.Ages scheme (Legacy.dropGeneration keepOnDisk g s) := by
  have closed := h.close g.layer
  have ages : s.Ages scheme (s.close g.layer).2 := s.ages_close g.layer
  obtain ⟨disk, same, kept | removed⟩ := Legacy.dropGeneration_cases keepOnDisk g s
  · rw [same, kept, ← s.disk_close g.layer]
    exact ⟨closed, ages⟩
  · rw [← s.disk_close g.layer] at removed
    have touched := touched_removeTree removed
    rw [same]
    exact ⟨touched.vetted closed (.inr (closed.settled_of_isGiven rfl)) fun old => old,
      ages.trans (touched.ages fun _ => .refl _)⟩

theorem Vetted.evict (h : s.Vetted first scheme shelf next) (keepOnDisk : Bool) (n : Nat)
    (gs : List Generation) : (Legacy.evict keepOnDisk n gs s).2.Vetted first scheme shelf next ∧
      s.Ages scheme (Legacy.evict keepOnDisk n gs s).2 := by
  induction n generalizing gs s with
  | zero => exact ⟨h, .refl s⟩
  | succ n ih =>
    cases gs with
    | nil => exact ⟨h, .refl s⟩
    | cons g gs =>
      obtain ⟨one, ages⟩ := h.dropGeneration keepOnDisk g
      obtain ⟨all, later⟩ := ih one gs
      exact ⟨all, ages.trans later⟩

section Opening

variable {root : String} {opener : Opener}

theorem ages_openGeneration {answer : Except StoreError LayerId} {dir : String}
    (opening : s.openGeneration opener dir = (answer, s')) : s.Ages scheme s' := by
  have filed {answer : Except StoreError Store} {disk : Disk}
      (made : opener.openAt s.disk dir = (answer, disk)) : s.disk.files.length ≤ disk.files.length ∧
        ∀ p file, disk.entryAt? p = some (.file file) →
          s.disk.entryAt? p = some (.file file) ∨ s.disk.files.length ≤ file := by
    have filed := Disk.filed_openAt made
    refine ⟨filed.length_le, fun p file there => ?_⟩
    exact (filed.names p file there).imp_right fun new => Nat.le_of_eq new.2.1.symm
  have grows := grows_of_openGeneration opening
  have layers (id : LayerId) (layer : Layer) (found : s.layer? id = some layer) :
      ∃ layer', s'.layer? id = some layer' ∧
        (∀ file, layer'.store.log? = some file → layer.store.log? = some file) ∧
        (id ≠ .main → layer.store.Gains scheme layer'.store) :=
    ⟨layer, (grows.layer id (Option.isSome_of_eq_some found)).trans found, fun _ log => log,
      fun _ => .refl layer.store⟩
  cases answer with
  | error e =>
    obtain ⟨disk, same | failed, rfl⟩ := openGeneration_error opening
    · rw [same]
      exact .refl s
    · exact ⟨grows.disk.workDir, (filed failed).1, (filed failed).2, layers⟩
  | ok id =>
    obtain ⟨store, disk, made, -, rfl⟩ := openGeneration_eq_ok opening
    exact ⟨grows.disk.workDir, (filed made).1, (filed made).2, layers⟩

theorem Vetted.openAt (h : s.Vetted first scheme (s.disk.shelf root) next)
    {answer : Except StoreError Store} {disk : Disk}
    (made : opener.openAt s.disk (Generation.pathOf root n) = (answer, disk)) :
    { s with disk }.Vetted first scheme (s.disk.shelf root) next := by
  have filed := Disk.filed_openAt made
  have layers := s.layer?_disk disk
  refine ⟨Nat.le_trans h.made filed.length_le, fun p file there => ?_,
    fun p q file new there there' => ?_, fun k file le new there => ?_,
    fun id layer given found => ?_, fun id layer found file log => ?_, fun id layer found => ?_⟩
  · rcases filed.names p file there with old | ⟨-, rfl, grown⟩
    · exact Nat.lt_of_lt_of_le (h.named p file old) filed.length_le
    · simp [grown]
  · rcases filed.names p file there with old | ⟨own, is, -⟩
    · rcases filed.names q file there' with old' | ⟨-, is, -⟩
      · exact h.single p q file new old old'
      · exact absurd (h.named p file old) (Nat.not_lt.2 (Nat.le_of_eq is.symm))
    · rcases filed.names q file there' with old' | ⟨own', -, -⟩
      · exact absurd (h.named q file old') (Nat.not_lt.2 (Nat.le_of_eq is.symm))
      · exact own.trans own'.symm
  · rw [filed.content]
    rcases filed.names _ file there with old | ⟨-, rfl, -⟩
    · exact h.unwritten k file le new old
    · simp [Disk.content]
  · exact h.given id layer given ((layers id).symm.trans found)
  · exact Nat.lt_of_lt_of_le (h.logs id layer ((layers id).symm.trans found) file log)
      filed.length_le
  · exact h.addressed id layer ((layers id).symm.trans found)

/-- A store that is opened under a number that none has taken has nothing in it, unless its log is
older. -/
theorem Vetted.addressed_opened (h : s.Vetted first scheme (s.disk.shelf root) next)
    (later : next ≤ n) {store : Store} {disk : Disk}
    (made : opener.openAt s.disk (Generation.pathOf root n) = (.ok store, disk))
    (fresh : ∀ file, store.log? = some file → first ≤ file) : store.Addressed scheme := by
  rcases Opener.openAt_eq_ok made with rfl | ⟨file, table, rfl⟩
  · exact fun key value found => nomatch found
  · obtain ⟨-, table', same, there⟩ := Disk.log_openAt made rfl
    cases same
    refine Store.addressed_of_empty _ ?_
    rcases there with ⟨old, replayed⟩ | ⟨-, -, empty⟩
    · rw [Disk.place_logPath_pathOf] at old
      rw [h.unwritten n file later (fresh file rfl) old] at replayed
      exact Except.ok.inj (replayed.symm.trans Log.replay_nil)
    · exact empty

/-- A generation that is opened under a number that none has taken has nothing in it, unless its
log is older, and its log has the name that belongs to the number. -/
theorem Vetted.openGeneration (h : s.Vetted first scheme (s.disk.shelf root) next)
    (later : next ≤ n) {answer : Except StoreError LayerId}
    (opening : s.openGeneration opener (Generation.pathOf root n) = (answer, s')) :
    s'.Vetted first scheme (s.disk.shelf root) next ∧
      ∀ id, answer = .ok id → s'.Housed first (s.disk.shelf root) id n := by
  cases answer with
  | error e =>
    refine ⟨?_, nofun⟩
    obtain ⟨disk, same | failed, rfl⟩ := openGeneration_error opening
    · rw [same]
      exact h
    · exact h.openAt failed
  | ok id =>
    obtain ⟨store, disk, made, rfl, rfl⟩ := openGeneration_eq_ok opening
    have before := h.openAt made
    have layers (id : LayerId) (layer : Layer) (found : Storage.layer? { s with
          disk, opened := s.opened ++
            [{ name := .generation (Path.lastName (Generation.pathOf root n)), store }] } id =
        some layer) : s.layer? id = some layer ∨
          id = .generation s.opened.length ∧ layer.store = store := by
      refine (layer?_append found).imp_right ?_
      rintro ⟨own, rfl⟩
      exact ⟨own, rfl⟩
    have logged {file : FileId} (log : store.log? = some file) :
        disk.entryAt? (Disk.logOn (s.disk.shelf root) n) = some (.file file) := by
      have named := (Disk.log_openAt made log).1
      rw [Disk.place_logPath_pathOf] at named
      exact named
    refine ⟨⟨before.made, before.named, before.single, before.unwritten, ?_, ?_, ?_⟩, ?_⟩
    · intro id layer given found file log
      rcases layers id layer found with old | ⟨rfl, -⟩
      · exact h.given id layer given old file log
      · cases given
    · intro id layer found file log
      rcases layers id layer found with old | ⟨-, same⟩
      · exact before.logs id layer ((s.layer?_disk disk id).trans old) file log
      · rw [same] at log
        exact before.named _ file (logged log)
    · intro id layer found fresh
      rcases layers id layer found with old | ⟨rfl, same⟩
      · exact h.addressed id layer old fresh
      · rw [same] at fresh ⊢
        rcases fresh with other | ⟨-, fresh⟩
        · cases other
        · exact h.addressed_opened later made fresh
    · intro id own
      cases own
      refine ⟨by simp [layer?], fun layer found file log new p there => ?_⟩
      rcases layers _ layer found with old | ⟨-, same⟩
      · simp [layer?] at old
      · rw [same] at log
        exact before.single p _ file new there (logged log)

end Opening

end Storage

/-! ## Making generations -/

theorem Scheme.admits_mark (scheme : Scheme) : scheme.Admits activeKey activeValue :=
  fun other => absurd rfl other

namespace Legacy

variable {first : FileId} {scheme : Scheme} {root : String} {opener : Opener}
  {retention : Retention} {l l' : Legacy} {s s' : Storage}

/-- Whether or not a generation is made, nothing is copied by it but the mark, and whoever is
told to copy into it may do so. -/
theorem vetted_create (h : s.Vetted first scheme (s.disk.shelf root) l.nextId)
    {answer : Except StoreError LayerId}
    (made : l.create root opener retention s = (answer, l', s')) :
    s'.Vetted first scheme (s.disk.shelf root) l'.nextId ∧ s.Ages scheme s' ∧ l.nextId ≤ l'.nextId ∧
      (∀ id, answer = .ok id → s'.Settled first (s.disk.shelf root) l'.nextId id) ∧
      ∀ g ∈ l'.generations, g ∈ l.generations ∨ answer = .ok g.layer := by
  cases creation made with
  | unopened opening =>
    exact ⟨(h.openGeneration (Nat.le_refl _) opening).1, Storage.ages_openGeneration opening,
      Nat.le_refl _, nofun, fun g => .inl⟩
  | @unmarked store disk e _ opening _ marking =>
    -- the log stays empty, so the number may be tried again
    obtain ⟨opened, -⟩ := h.openGeneration (Nat.le_refl _) opening
    have marked := opened.put (.inr scheme.admits_mark) (.inr ⟨e, congrArg Prod.fst marking⟩)
    have ages : s.Ages scheme ((l.grown root store disk s).put (l.next root s).layer activeKey
        activeValue).2 :=
      (Storage.ages_openGeneration opening).trans (Storage.ages_put _ (.inr scheme.admits_mark))
    change Storage.Vetted first scheme (s.disk.shelf root) l.nextId (l.marking root store disk s).2
      at marked
    change s.Ages scheme (l.marking root store disk s).2 at ages
    rw [marking] at marked ages
    exact ⟨marked, ages, Nat.le_refl _, nofun, fun g => .inl⟩
  | @made store disk opening _ marking =>
    obtain ⟨opened, housed⟩ := h.openGeneration (Nat.le_refl _) opening
    have settled := (housed _ rfl).settled (Nat.lt_succ_self l.nextId)
    have taken := opened.mono (Nat.le_succ l.nextId)
    have marked := taken.put (.inr scheme.admits_mark) (.inl settled)
    have marks : (l.grown root store disk s).Ages scheme
        ((l.grown root store disk s).put (l.next root s).layer activeKey activeValue).2 :=
      Storage.ages_put _ (.inr scheme.admits_mark)
    obtain ⟨kept, later⟩ := marked.evict retention.keepOnDisk
      (l.generations.length + 1 - retention.max) (l.generations ++ [l.next root s])
    refine ⟨kept, ((Storage.ages_openGeneration opening).trans marks).trans later, Nat.le_succ _,
      fun id same => ?_, fun g mem => ?_⟩
    · rw [← Except.ok.inj same]
      exact settled.ages taken (marks.trans later) (Nat.le_refl _)
    · rcases List.mem_append.1 (List.mem_of_mem_drop mem) with old | new
      · exact .inl old
      · rw [List.mem_singleton.1 new]
        exact .inr rfl

end Legacy

namespace Discovery

variable {first : FileId} {scheme : Scheme} {root : String} {opener : Opener} {s : Storage}

/-- A scan opens logs, and writes nothing. -/
theorem vetted_run (h : s.Vetted first scheme (s.disk.shelf root) 0) :
    (run root opener s).2.Vetted first scheme (s.disk.shelf root) (run root opener s).1.nextId ∧
      s.Ages scheme (run root opener s).2 ∧
      ∀ g ∈ (run root opener s).1.generations,
        (run root opener s).2.Settled first (s.disk.shelf root) (run root opener s).1.nextId
          g.layer := by
  have scanned : (run root opener s).2.Vetted first scheme (s.disk.shelf root) 0 ∧
      s.Ages scheme (run root opener s).2 ∧ ∀ g ∈ (run root opener s).1.generations,
        (run root opener s).2.Housed first (s.disk.shelf root) g.layer g.id := by
    refine run_induction
      (P := fun found s' => s'.Vetted first scheme (s.disk.shelf root) 0 ∧ s.Ages scheme s' ∧
        ∀ g ∈ found, s'.Housed first (s.disk.shelf root) g.layer g.id)
      (fun {_ s₁ _ _ _} before opening => ?_) (fun {_ s₁ _ _ _} before opening => ?_)
      ⟨h, .refl s, by simp⟩
    all_goals
      obtain ⟨vetted, ages, housed⟩ := before
      have shelf := Disk.shelf_congr ages.workDir root
      have later : s₁.Ages scheme _ := Storage.ages_openGeneration opening
      rw [← shelf] at vetted
      obtain ⟨opened, own⟩ := vetted.openGeneration (Nat.zero_le _) opening
      rw [shelf] at opened own vetted
      refine ⟨opened, ages.trans later, fun g mem => ?_⟩
    · exact (housed g mem).ages vetted later
    · rcases Generation.mem_place mem with rfl | old
      · exact own _ rfl
      · exact (housed g old).ages vetted later
  obtain ⟨vetted, ages, housed⟩ := scanned
  refine ⟨vetted.mono (Nat.zero_le _), ages, fun g mem => (housed g mem).settled ?_⟩
  exact (lt_nextId_iff (row_run s).ascending).2 ⟨g, mem, Nat.le_refl _⟩

end Discovery

end TrieStorage

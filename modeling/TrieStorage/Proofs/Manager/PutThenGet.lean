import TrieStorage.Proofs.Manager.MainStore
import TrieStorage.Proofs.Store.Partitions

/-!
# Reading what has just been put

Puts go to the main store, which readers ask first.  If it is split by epoch, a put goes to
the partition of the selected epoch, and readers ask the newer ones before that: so what has
been put is read at once unless one of those answers first.  In every state that a manager
reaches the partitions are in order, whatever has been selected and put before.
-/

namespace TrieStorage

/-! ## The main store stays in order -/

theorem Store.stable_ordered : Store.Stable Store.Ordered :=
  ⟨fun h => h.put, fun h => h.remove, fun h => h.close, fun h => h.selectEpoch⟩

namespace Storage

/-- The partitions of the main store, if it has any, are in order. -/
def Tidy (s : Storage) : Prop := s.main.store.Ordered

theorem get_eq {s : Storage} {id : LayerId} {layer : Layer} (found : s.layer? id = some layer)
    (key : Bytes) : s.get id key = layer.get s.refusals key := by
  simp only [get, found]

end Storage

/-! ## Reading -/

/-- What a layer has taken is read from it, unless it is shadowed. -/
theorem Layer.get_put_self {layer : Layer} (ordered : layer.store.Ordered) {refusals : Refusals}
    {disk : Disk} {key value : Bytes}
    (taken : (layer.put refusals disk key value).1 = .ok ()) :
    (refusals.refuse layer.name .get (some key) = false → ¬ layer.store.Shadows key →
      (layer.put refusals disk key value).2.1.get refusals key = .ok (some value)) ∧
    (layer.store.Shadows key →
      (layer.put refusals disk key value).2.1.get refusals key = layer.get refusals key) := by
  unfold put at taken ⊢
  dsimp only at taken ⊢
  split at taken
  · cases taken
  · next allowed =>
    rw [if_neg allowed]
    obtain ⟨plain, shadowed⟩ := Store.get_put_self ordered taken
    unfold get
    dsimp only
    refine ⟨fun readable free => ?_, fun covered => ?_⟩
    · rw [if_neg (by simp [readable])]
      exact plain free
    · rw [shadowed covered]

namespace Vault

variable {v : Vault} {key value : Bytes}

/-- What the main store takes is read at once, unless it is shadowed. -/
theorem get_put (tidy : v.storage.Tidy) (taken : (v.put key value).1 = .ok ())
    (full : value ≠ []) :
    (v.storage.refusals.refuse v.storage.main.name .get (some key) = false →
      ¬ v.storage.main.store.Shadows key → (v.put key value).2.get key = .ok value) ∧
    (v.storage.main.store.Shadows key → (v.put key value).2.get key = v.get key) := by
  have put : (v.put key value).2.storage = (v.storage.put .main key value).2 := rfl
  have found : v.storage.layer? .main = some v.storage.main := rfl
  have taken : (v.storage.main.put v.storage.refusals v.storage.disk key value).1 = .ok () := by
    change (v.storage.put .main key value).1.mapError _ = .ok () at taken
    rw [Storage.put_eq found] at taken
    cases answer : (v.storage.main.put v.storage.refusals v.storage.disk key value).1 with
    | ok _ => rfl
    | error e =>
      rw [answer] at taken
      cases taken
  have read := Storage.get_eq (Storage.layer?_put_self found key value) key
  rw [Storage.refusals_put] at read
  obtain ⟨plain, shadowed⟩ := Layer.get_put_self tidy taken
  refine ⟨fun readable free => ?_, fun covered => ?_⟩
  · have own : (v.put key value).2.storage.peek .main key = some value := by
      unfold Storage.peek
      rw [put, read, plain readable free]
      simp [full]
    unfold get lookup
    rw [own]
    rfl
  · have same (id : LayerId) : (v.put key value).2.storage.peek id key = v.storage.peek id key := by
      rw [put]
      by_cases own : id = .main
      · subst own
        unfold Storage.peek
        rw [read, shadowed covered, Storage.get_eq found]
      · exact Storage.peek_congr (Storage.layer?_put_of_ne own key value)
          (Storage.refusals_put ..) key
    have order : (v.put key value).2.readOrder = v.readOrder := rfl
    unfold get
    simp only [lookup_eq, order, same]

end Vault

namespace Manager

variable {m m₀ : Manager} {events : List Event} {parts : Parts} {disk : Disk}
  {refusals : Refusals} {key value : Bytes}

/-- In every state that a manager reaches, a put that succeeds is read by the next reader, unless
a partition of the main store that is newer than the selected one answers first; then readers
find what they have found before.  Partitions are in memory. -/
theorem put_then_get (ordered : ∀ store, parts.main = some store → store.Ordered)
    (made : assemble parts disk refusals = .ok m₀) (ran : m₀.run? events = some m)
    (taken : (m.put key value).1 = .ok ()) (full : value ≠ []) :
    (m.vault.storage.refusals.refuse m.vault.storage.main.name .get (some key) = false →
      ¬ m.vault.storage.main.store.Shadows key → (m.put key value).2.get key = .ok value) ∧
    (m.vault.storage.main.store.Shadows key → (m.put key value).2.get key = m.get key) :=
  Vault.get_put (Store.stable_ordered.of_run ordered made ran) taken full

/-- A main store with partitions. -/
def byEpoch : Parts := { inMemory {} none with main := some (.partitioned {}) }

/-- A value is put for a late epoch, and an earlier one is selected again. -/
def lateRun : List Event :=
  [.action (.selectEpoch 1), .action (.put [107] [49]), .action (.selectEpoch 0)]

/-- Another key is read as it is put, and the one with the late value as before. -/
theorem lateRun_put_then_get : ∃ m, runFrom byEpoch {} lateRun = some m ∧
    (m.put [108] [50]).2.get [108] = .ok [50] ∧ (m.put [107] [50]).2.get [107] = .ok [49] := by
  have evaluated : ∃ m, runFrom byEpoch {} lateRun = some m ∧
      ((m.put [108] [50]).1 = .ok () ∧ (m.put [107] [50]).1 = .ok () ∧
        m.vault.storage.refusals.refuse m.vault.storage.main.name .get (some [108]) = false ∧
        ¬ m.vault.storage.main.store.Shadows [108] ∧ m.vault.storage.main.store.Shadows [107] ∧
        m.get [107] = .ok [49]) :=
    exists_of_runFrom (by decide +kernel)
  obtain ⟨m, ran, other, own, readable, plain, shadowed, before⟩ := evaluated
  obtain ⟨m₀, made, ran'⟩ := of_runFrom ran
  have ordered (store : Store) (given : byEpoch.main = some store) : store.Ordered := by
    cases given
    exact List.Pairwise.nil
  refine ⟨m, ran, (put_then_get ordered made ran' other (by decide)).1 readable plain, ?_⟩
  rw [(put_then_get ordered made ran' own (by decide)).2 shadowed, before]

/-- So a put into an open manager can succeed and not be read. -/
theorem lateRun_hides_put : ∃ m, runFrom byEpoch {} lateRun = some m ∧ m.closed = false ∧
    (m.put [107] [50]).1 = .ok () ∧ (m.put [107] [50]).2.get [107] = .ok [49] :=
  exists_of_runFrom (by decide +kernel)

end Manager

end TrieStorage

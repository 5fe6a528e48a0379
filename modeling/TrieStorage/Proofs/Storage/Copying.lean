import TrieStorage.Manager.Vault
import TrieStorage.Proofs.Store.Puts

/-!
# Copying into a layer

Putting under a key the value that is read under it changes nothing for readers,
whichever layer it is put into and whether or not the put succeeds.  So a walk
may read and copy at the same time.  What a layer holds it keeps while other keys
are copied into it.
-/

namespace TrieStorage

namespace Layer

section Cases

variable (layer : Layer) (refusals : Refusals) (disk : Disk) (key value : Bytes)

/-- A put is refused, or it is one of the store. -/
theorem put_cases : ((layer.put refusals disk key value).2.1.store = layer.store ∧
      (layer.put refusals disk key value).2.2 = disk ∧
      ∃ e, (layer.put refusals disk key value).1 = .error e) ∨
    (layer.put refusals disk key value).2.1.store = (layer.store.put disk key value).2.1 ∧
      (layer.put refusals disk key value).2.2 = (layer.store.put disk key value).2.2 ∧
      (layer.put refusals disk key value).1 = (layer.store.put disk key value).1 := by
  unfold put
  dsimp only
  split
  · exact .inl ⟨rfl, rfl, _, rfl⟩
  · exact .inr ⟨rfl, rfl, rfl⟩

/-- So is a removal, -/
theorem remove_cases : ((layer.remove refusals disk key).2.1.store = layer.store ∧
      (layer.remove refusals disk key).2.2 = disk) ∨
    (layer.remove refusals disk key).2.1.store = (layer.store.remove disk key).2.1 ∧
      (layer.remove refusals disk key).2.2 = (layer.store.remove disk key).2.2 := by
  unfold remove
  dsimp only
  split
  · exact .inl ⟨rfl, rfl⟩
  · exact .inr ⟨rfl, rfl⟩

/-- and a closing. -/
theorem close_cases : (layer.close refusals).2.store = layer.store ∨
    (layer.close refusals).2.store = layer.store.close.2 := by
  unfold close
  dsimp only
  split
  · exact .inl rfl
  · exact .inr rfl

end Cases

theorem get_put (layer : Layer) (refusals : Refusals) (disk : Disk) (key value k : Bytes) :
    (layer.put refusals disk key value).2.1.get refusals k = layer.get refusals k ∨
      k = key ∧ (layer.put refusals disk key value).2.1.get refusals k = .ok (some value) := by
  unfold put
  dsimp only
  split
  · exact .inl rfl
  · unfold get
    dsimp only
    split
    · exact .inl rfl
    · exact layer.store.get_put disk key value k

/-- What a layer holds it keeps, as long as nothing else is put under the key. -/
theorem holds_of_put {layer : Layer} {refusals : Refusals} {disk : Disk} {key value k x : Bytes}
    (h : layer.store.Holds k x) (agree : k = key → x = value) :
    (layer.put refusals disk key value).2.1.store.Holds k x := by
  rcases layer.put_cases refusals disk key value with ⟨same, -⟩ | ⟨same, -⟩
  · rw [same]
    exact h
  · rw [same]
    exact h.put agree

theorem holds_put {layer : Layer} {refusals : Refusals} {disk : Disk} {key value : Bytes}
    (h : (layer.put refusals disk key value).1 = .ok ()) :
    (layer.put refusals disk key value).2.1.store.Holds key value := by
  rcases layer.put_cases refusals disk key value with ⟨-, -, e, refused⟩ | ⟨same, -, answer⟩
  · rw [refused] at h
    cases h
  · rw [same]
    exact Store.holds_put (answer.symm.trans h)

/-- Whether puts into the layer succeed. -/
structure Accepts (layer : Layer) (refusals : Refusals) : Prop where
  free : ∀ key, refusals.refuse layer.name .put (some key) = false
  writable : layer.store.Writable

theorem Accepts.put {layer : Layer} {refusals : Refusals} (h : layer.Accepts refusals)
    (disk : Disk) (key value : Bytes) :
    (layer.put refusals disk key value).1 = .ok () ∧
      (layer.put refusals disk key value).2.1.Accepts refusals := by
  have taken := h.writable.put disk key value
  unfold Layer.put
  dsimp only
  rw [if_neg (by simp [h.free key])]
  exact ⟨taken.1, h.free, taken.2⟩

end Layer

namespace Storage

variable {s : Storage} {id : LayerId} {layer : Layer}

theorem layer?_setLayer_self (h : (s.layer? id).isSome) (layer : Layer) :
    (s.setLayer id layer).layer? id = some layer := by
  cases id with
  | generation serial =>
    have lt : serial < s.opened.length := by simpa [layer?] using h
    simp [setLayer, layer?, lt]
  | _ => rfl

theorem layer?_setLayer_of_ne {other : LayerId} (ne : other ≠ id) (layer : Layer) :
    (s.setLayer id layer).layer? other = s.layer? other := by
  cases id with
  | generation serial =>
    cases other with
    | generation n =>
      have : serial ≠ n := fun e => ne (congrArg LayerId.generation e.symm)
      simp [setLayer, layer?, this]
    | _ => rfl
  | _ => cases other <;> first | rfl | exact absurd rfl ne

@[simp] theorem refusals_setLayer (s : Storage) (id : LayerId) (layer : Layer) :
    (s.setLayer id layer).refusals = s.refusals := by
  cases id <;> rfl

theorem put_eq (found : s.layer? id = some layer) (key value : Bytes) :
    s.put id key value =
      ((layer.put s.refusals s.disk key value).1,
        { s with disk := (layer.put s.refusals s.disk key value).2.2 }.setLayer id
          (layer.put s.refusals s.disk key value).2.1) := by
  simp only [put, found]

theorem put_of_none (missing : s.layer? id = none) (key value : Bytes) :
    s.put id key value = (.error .closed, s) := by
  simp only [put, missing]

@[simp] theorem refusals_put (s : Storage) (id : LayerId) (key value : Bytes) :
    (s.put id key value).2.refusals = s.refusals := by
  cases found : s.layer? id with
  | none => rw [put_of_none found]
  | some layer => rw [put_eq found, refusals_setLayer]

/-- The layer that a put leaves where it went. -/
theorem layer?_put_self (found : s.layer? id = some layer) (key value : Bytes) :
    (s.put id key value).2.layer? id =
      some (layer.put s.refusals s.disk key value).2.1 := by
  rw [put_eq found]
  refine layer?_setLayer_self ?_ _
  have same : { s with disk := (layer.put s.refusals s.disk key value).2.2 }.layer? id =
      s.layer? id := by cases id <;> rfl
  rw [same, found]
  rfl

theorem layer?_put_of_ne {other : LayerId} (ne : other ≠ id) (key value : Bytes) :
    (s.put id key value).2.layer? other = s.layer? other := by
  cases found : s.layer? id with
  | none => rw [put_of_none found]
  | some layer =>
    rw [put_eq found, layer?_setLayer_of_ne ne]
    cases other <;> rfl

theorem get_put (s : Storage) (id : LayerId) (key value : Bytes) (other : LayerId) (k : Bytes) :
    (s.put id key value).2.get other k = s.get other k ∨
      k = key ∧ (s.put id key value).2.get other k = .ok (some value) := by
  unfold get
  by_cases same : other = id
  · subst same
    cases found : s.layer? other with
    | none =>
      rw [put_of_none found, found]
      exact .inl rfl
    | some layer =>
      rw [layer?_put_self found, refusals_put]
      exact layer.get_put s.refusals s.disk key value k
  · rw [layer?_put_of_ne same, refusals_put]
    exact .inl rfl

/-- A put changes at most what is found under its key, and only to its value. -/
theorem peek_put (s : Storage) (id : LayerId) {key value : Bytes} (full : value.isEmpty = false)
    (other : LayerId) (k : Bytes) :
    (s.put id key value).2.peek other k = s.peek other k ∨
      k = key ∧ (s.put id key value).2.peek other k = some value := by
  unfold peek
  rcases s.get_put id key value other k with same | ⟨own, found⟩
  · rw [same]
    exact .inl rfl
  · rw [found]
    exact .inr ⟨own, by simp [full]⟩

/-- Nothing empty is found in passing. -/
theorem isEmpty_of_peek {key value : Bytes} (h : s.peek id key = some value) :
    value.isEmpty = false := by
  unfold peek at h
  split at h
  · split at h
    · cases h
    · next full =>
      rw [← Option.some.inj h]
      simpa using full
  · cases h
  · cases h

end Storage

namespace Vault

/-- The layers in the order in which they are read. -/
def readOrder (v : Vault) : List LayerId := .main :: .checkpoints :: v.legacy.readOrder

theorem lookup_eq (v : Vault) (key : Bytes) :
    v.lookup key = v.readOrder.findSome? fun id => v.storage.peek id key := by
  simp only [lookup, readOrder, Legacy.get, List.findSome?_cons]
  cases v.storage.peek .main key with
  | some value => rfl
  | none => cases v.storage.peek .checkpoints key <;> rfl

theorem isEmpty_of_lookup {v : Vault} {key value : Bytes} (h : v.lookup key = some value) :
    value.isEmpty = false := by
  rw [lookup_eq] at h
  obtain ⟨id, -, found⟩ := List.exists_of_findSome?_eq_some h
  exact Storage.isEmpty_of_peek found

/-- Finding in more places what is found anyway changes nothing. -/
theorem findSome?_of_agree {α β : Type} {f g : α → Option β} {b : β} :
    ∀ {l : List α}, l.findSome? f = some b → (∀ a ∈ l, g a = f a ∨ g a = some b) →
      l.findSome? g = some b
  | a :: l, h, agree => by
    rw [List.findSome?_cons] at h ⊢
    rcases agree a List.mem_cons_self with same | found
    · rw [same]
      cases hf : f a with
      | some c =>
        rw [hf] at h
        exact h
      | none =>
        rw [hf] at h
        exact findSome?_of_agree h fun x hx => agree x (List.mem_cons_of_mem a hx)
    · rw [found]

section PutInto

variable {v v' : Vault} {target : LayerId} {key value : Bytes} {answer : Except StoreError Unit}

/-- A put changes nothing but the storage. -/
theorem eq_of_putInto (written : v.putInto target key value = (answer, v')) :
    v' = { v with storage := v'.storage } := by
  have : v' = (v.putInto target key value).2 := (congrArg Prod.snd written).symm
  rw [this]
  rfl

/-- Copying what is read does not change what is read. -/
theorem lookup_of_putInto (h : v.lookup key = some value)
    (written : v.putInto target key value = (answer, v')) (k : Bytes) :
    v'.lookup k = v.lookup k := by
  obtain rfl : (v.putInto target key value).2 = v' := congrArg Prod.snd written
  have full := isEmpty_of_lookup h
  have order : (v.putInto target key value).2.readOrder = v.readOrder := rfl
  rw [lookup_eq, lookup_eq, order]
  by_cases own : k = key
  · subst own
    rw [lookup_eq] at h
    rw [h]
    refine findSome?_of_agree h fun id _ => ?_
    exact (v.storage.peek_put target full id k).imp_right And.right
  · have same (id : LayerId) : (v.putInto target key value).2.storage.peek id k =
        v.storage.peek id k :=
      (v.storage.peek_put target full id k).resolve_right fun e => own e.1
    simp only [same]

/-- Whether a value is under a key of a layer. -/
def Holds (v : Vault) (id : LayerId) (key value : Bytes) : Prop :=
  ∃ layer, v.storage.layer? id = some layer ∧ layer.store.Holds key value

/-- Whether puts into a layer succeed. -/
def Accepts (v : Vault) (id : LayerId) : Prop :=
  ∃ layer, v.storage.layer? id = some layer ∧ layer.Accepts v.storage.refusals

/-- A layer keeps what it holds, as long as nothing else is put under the key. -/
theorem Holds.of_putInto {id : LayerId} {k x : Bytes} (h : v.Holds id k x)
    (agree : k = key → x = value) (written : v.putInto target key value = (answer, v')) :
    v'.Holds id k x := by
  obtain rfl : (v.putInto target key value).2 = v' := congrArg Prod.snd written
  obtain ⟨layer, found, holds⟩ := h
  by_cases same : id = target
  · subst same
    exact ⟨_, Storage.layer?_put_self found key value, Layer.holds_of_put holds agree⟩
  · exact ⟨layer, (Storage.layer?_put_of_ne same key value).trans found, holds⟩

theorem holds_of_putInto (written : v.putInto target key value = (.ok (), v')) :
    v'.Holds target key value := by
  obtain rfl : (v.putInto target key value).2 = v' := congrArg Prod.snd written
  have put : (v.storage.put target key value).1 = .ok () := congrArg Prod.fst written
  cases found : v.storage.layer? target with
  | none =>
    rw [Storage.put_of_none found] at put
    cases put
  | some layer =>
    rw [Storage.put_eq found] at put
    exact ⟨_, Storage.layer?_put_self found key value, Layer.holds_put put⟩

theorem Accepts.putInto (h : v.Accepts target) (key value : Bytes) :
    ∃ v', v.putInto target key value = (.ok (), v') ∧ v'.Accepts target := by
  obtain ⟨layer, found, accepts⟩ := h
  obtain ⟨taken, still⟩ := accepts.put v.storage.disk key value
  have answer : (v.putInto target key value).1 = .ok () := by
    show (v.storage.put target key value).1 = .ok ()
    rw [Storage.put_eq found]
    exact taken
  refine ⟨_, Prod.ext answer rfl, _, Storage.layer?_put_self found key value, ?_⟩
  show Layer.Accepts _ (v.storage.put target key value).2.refusals
  rw [Storage.refusals_put]
  exact still

end PutInto

end Vault

end TrieStorage

import TrieStorage.Proofs.Manager.Closing

/-!
# The main store in a run

A manager changes its main layer by the calls of a layer and in no other way.  So what every
call keeps, the main layer keeps in every run, whatever the run does to other layers; and what
every call of a store keeps, the store in it keeps.
-/

namespace TrieStorage

/-- What no call takes away from a store. -/
structure Store.Stable (P : Store → Prop) : Prop where
  put : ∀ {s : Store}, P s → ∀ disk key value, P (s.put disk key value).2.1
  remove : ∀ {s : Store}, P s → ∀ disk key, P (s.remove disk key).2.1
  close : ∀ {s : Store}, P s → P s.close.2
  selectEpoch : ∀ {s : Store}, P s → ∀ epoch, P (s.selectEpoch epoch)

/-- What no call takes away from a layer. -/
structure Layer.Stable (P : Layer → Prop) : Prop where
  put : ∀ {l : Layer}, P l → ∀ refusals disk key value, P (l.put refusals disk key value).2.1
  remove : ∀ {l : Layer}, P l → ∀ refusals disk key, P (l.remove refusals disk key).2.1
  close : ∀ {l : Layer}, P l → ∀ refusals, P (l.close refusals).2
  selectEpoch : ∀ {l : Layer}, P l → ∀ epoch, P { l with store := l.store.selectEpoch epoch }

/-- A call that does not reach the store of a layer leaves it as it is. -/
theorem Store.Stable.layer {P : Store → Prop} (stable : Store.Stable P) :
    Layer.Stable fun l => P l.store := by
  refine ⟨fun {l} h refusals disk key value => ?_, fun {l} h refusals disk key => ?_,
    fun {l} h refusals => ?_, fun h => stable.selectEpoch h⟩
  · rcases l.put_cases refusals disk key value with ⟨same, -⟩ | ⟨same, -⟩
    · rw [same]
      exact h
    · rw [same]
      exact stable.put h disk key value
  · rcases l.remove_cases refusals disk key with ⟨same, -⟩ | ⟨same, -⟩
    · rw [same]
      exact h
    · rw [same]
      exact stable.remove h disk key
  · rcases l.close_cases refusals with same | same
    · rw [same]
      exact h
    · rw [same]
      exact stable.close h

namespace Layer.Stable

variable {P : Layer → Prop} (stable : Layer.Stable P)

include stable

/-! ## Changes of the storage -/

section Storage

variable {s s' : Storage} (h : P s.main)

include h

omit stable in
theorem of_layer? (main : s'.layer? .main = s.layer? .main) : P s'.main := by
  have same : s'.main = s.main := Option.some.inj main
  rw [same]
  exact h

theorem storage_put (id : LayerId) (key value : Bytes) :
    P (s.put id key value).2.main := by
  by_cases own : id = .main
  · subst own
    have found : s.layer? .main = some s.main := rfl
    have main : (s.put .main key value).2.main = (s.main.put s.refusals s.disk key value).2.1 :=
      Option.some.inj (Storage.layer?_put_self found key value)
    rw [main]
    exact stable.put h s.refusals s.disk key value
  · exact of_layer? h (Storage.layer?_put_of_ne (Ne.symm own) key value)

theorem storage_close (id : LayerId) : P (s.close id).2.main := by
  by_cases own : id = .main
  · subst own
    exact stable.close h s.refusals
  · exact of_layer? h (s.layer?_close_of_ne id (Ne.symm own))

theorem closeLayers (answer : Except StoreError Unit) (ids : List LayerId) :
    P (Legacy.closeLayers answer ids s).2.main := by
  induction ids generalizing answer s with
  | nil => exact h
  | cons id rest ih =>
    rw [Legacy.closeLayers_cons]
    exact ih (stable.storage_close h id) _

omit stable in
theorem of_grows (grows : s.Grows s') : P s'.main := of_layer? h (grows.layer .main rfl)

end Storage

/-! ## Changes of the vault -/

section Vault

variable {v : Vault} (h : P v.storage.main)

include h

theorem confirmEpoch (closed : Bool) (epoch : Epoch) :
    P (v.confirmEpoch closed epoch).storage.main := by
  refine Vault.confirmEpoch_induction (P := fun v => P v.storage.main) h (fun _ => id)
    (fun _ h => stable.storage_put h .main activeKey activeValue) (fun v h => ?_) closed epoch
  rw [v.closeLegacy_eq.2.1]
  exact stable.closeLayers h _ _

theorem deliveries (closed : Bool) (deliveries : List (Unit × Epoch)) :
    P (deliveries.foldl (fun v d => v.confirmEpoch closed d.2) v).storage.main :=
  Vault.deliveries_induction (P := fun v => P v.storage.main) h
    (fun _ epoch h => stable.confirmEpoch h closed epoch) deliveries

omit stable in
theorem target (arranged : v.Arranged) (kind : RequestKind) :
    P (v.target kind).2.storage.main := by
  rcases v.target_cases kind with ⟨same, -⟩ | ⟨root, opener, answer, l', s', -, made, same, -⟩
  · rw [same]
    exact h
  · rw [same]
    rcases Legacy.create_cases made with ⟨e, -, -, grows⟩ | ⟨store, disk, opening, -, -, -, spared⟩
    · exact of_grows h grows
    · -- only generations are dropped
      have stays : LayerId.main ∉ ((v.legacy.generations ++ [v.legacy.next root v.storage]).take
          (v.legacy.generations.length + 1 - v.retention.max)).map Generation.layer := by
        intro mem
        obtain ⟨g, gone, main⟩ := List.mem_map.1 mem
        rcases List.mem_append.1 (List.mem_of_mem_take gone) with old | new
        · obtain ⟨serial, -, same⟩ := arranged.legacy.known g old
          rw [same] at main
          cases main
        · rw [List.mem_singleton.1 new] at main
          cases main
      exact of_layer? (of_grows h (v.legacy.grows_marking opening)) (spared.layer .main stays)

omit stable in
theorem discover : P v.discover.storage.main := by
  unfold Vault.discover
  split
  · exact h
  · refine Discovery.run_induction (P := fun _ s => P s.main) (fun h opening => ?_)
      (fun h opening => ?_) h
    all_goals exact of_grows h (Storage.grows_of_openGeneration opening)

end Vault

/-! ## Steps -/

section Manager

variable {m m' m₀ : Manager} {events : List Event} {parts : Parts} {disk : Disk}
  {refusals : Refusals}

theorem act (h : P m.vault.storage.main) (a : Action) :
    P (m.act a).vault.storage.main := by
  cases a with
  | put key value => exact stable.storage_put h .main key value
  | remove hash => exact stable.remove h _ _ hash.bytes
  | selectEpoch epoch => exact stable.selectEpoch h epoch
  | confirmEpoch epoch => exact stable.confirmEpoch h m.closed epoch
  | checkEpoch epoch =>
    simp only [Manager.act, Manager.checkEpoch, Manager.deliverEpochs_eq]
    exact stable.deliveries h m.closed _
  | submit kind root sink =>
    rcases Manager.act_submit m kind root sink with ⟨-, same⟩ | ⟨-, same⟩
    all_goals
      rw [same]
      exact h
  | close =>
    simp only [Manager.act, Manager.close]
    split
    · exact h
    · rw [m.vault.close_eq.2.1]
      exact stable.closeLayers h _ _
  | _ => exact h

theorem move (h : P m.vault.storage.main) (arranged : m.vault.Arranged) {mv : Move}
    (moved : m.move? mv = some m') : P m'.vault.storage.main := by
  rcases Manager.written_move? moved with ⟨-, same | ⟨id, key, value, same⟩⟩ | ⟨kind, vault⟩
  · rw [same]
    exact h
  · rw [same]
    exact stable.storage_put h id key value
  · rw [vault]
    exact target h arranged kind

/-- What every call of a layer keeps, the main layer of a manager keeps in every run. -/
theorem of_run (given : ∀ store, parts.main = some store → P { name := .main, store })
    (made : Manager.assemble parts disk refusals = .ok m₀) (ran : m₀.run? events = some m) :
    P m.vault.storage.main := by
  refine Manager.run?_induction (P := fun _ m => P m.vault.storage.main) ?_
    (fun {_ n e n'} before ih stepped => ?_) ran
  · obtain ⟨n, composed, rfl, -, -⟩ := Manager.assemble_cases made
    refine discover ?_
    simp only [Manager.joinHub, Manager.deliverEpochs_eq]
    refine stable.deliveries ?_ n.closed _
    obtain ⟨_, main, _, _, _, _, _, _, -, own, -, -, -, -, -, -, -, rfl⟩ :=
      Manager.compose_eq_ok composed
    exact given main own
  · cases e with
    | action a =>
      cases Option.some.inj stepped
      exact stable.act ih a
    | move mv => exact stable.move ih (Manager.arranged_of_run made before) stepped

end Manager

end Layer.Stable

/-- What every call of a store keeps, the main store of a manager keeps in every run. -/
theorem Store.Stable.of_run {P : Store → Prop} (stable : Store.Stable P) {m m₀ : Manager}
    {events : List Event} {parts : Parts} {disk : Disk} {refusals : Refusals}
    (given : ∀ store, parts.main = some store → P store)
    (made : Manager.assemble parts disk refusals = .ok m₀) (ran : m₀.run? events = some m) :
    P m.vault.storage.main.store :=
  stable.layer.of_run given made ran

end TrieStorage

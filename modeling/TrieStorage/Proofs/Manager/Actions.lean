import TrieStorage.Proofs.Manager.Runs
import TrieStorage.Proofs.Walk.Steps

/-!
# What each action does

Submissions, withdrawals, closing and the two prohibitions of pruning concern
the requests as a whole.  All other actions change the vault, the hub, or what a
reader has got out of a sink; `act_aside` says so once for all of them.
-/

namespace TrieStorage

/-! ## Hearing of epochs -/

namespace Vault

variable {P : Vault → Prop} {v : Vault}

/-- Hearing of an epoch does no more than to disable the old layout, to mark the main store
and to close the old layout: what each of these keeps is kept. -/
theorem confirmEpoch_induction (h : P v)
    (disables : ∀ v, P v → P { v with legacy := { v.legacy with disabled := true } })
    (marks : ∀ v, P v → P (v.putInto .main activeKey activeValue).2)
    (closes : ∀ v, P v → P v.closeLegacy.2) (closed : Bool) (epoch : Epoch) :
    P (v.confirmEpoch closed epoch) := by
  have noted : P (v.noteEpoch epoch) := by
    unfold noteEpoch
    split
    · exact disables v h
    · exact h
  have marked := marks _ noted
  unfold confirmEpoch
  dsimp only
  split
  · exact noted
  · split
    · exact closes _ marked
    · exact marked

theorem deliveries_induction (h : P v) {closed : Bool}
    (confirms : ∀ v epoch, P v → P (v.confirmEpoch closed epoch))
    (deliveries : List (Unit × Epoch)) :
    P (deliveries.foldl (fun v d => v.confirmEpoch closed d.2) v) := by
  induction deliveries generalizing v with
  | nil => exact h
  | cons d rest ih => exact ih (confirms v d.2 h)

end Vault

/-! ## Changes made by readers -/

/-- A change of requests that leaves all but the contents of sinks alone. -/
structure ReaderChange (change : Request → Request) : Prop where
  stub : ∀ r, (change r).stub = r.stub
  attached : ∀ r, (change r).sink.map LeafSink.attached = r.sink.map LeafSink.attached

namespace ReaderChange

theorem refl : ReaderChange id := ⟨fun _ => rfl, fun _ => rfl⟩

theorem comp {change change' : Request → Request} (h' : ReaderChange change')
    (h : ReaderChange change) : ReaderChange (change' ∘ change) :=
  ⟨fun r => (h'.stub _).trans (h.stub r), fun r => (h'.attached _).trans (h.attached r)⟩

/-- A change of the sink of one number that keeps it attached or detached. -/
theorem ofSink {change : LeafSink → LeafSink} (id : RequestId)
    (keeps : ∀ sink, (change sink).attached = sink.attached) :
    ReaderChange fun r => if r.id = id then r.onSink change else r := by
  refine ⟨fun r => ?_, fun r => ?_⟩
  · split
    · exact Request.stub_onSink r change
    · rfl
  · split
    · simp only [Request.onSink, Option.map_map]
      exact Option.map_congr fun sink _ => keeps sink
    · rfl

theorem id_eq {change : Request → Request} (h : ReaderChange change) (r : Request) :
    (change r).id = r.id := Request.id_of_stub (h.stub r)

theorem kind_eq {change : Request → Request} (h : ReaderChange change) (r : Request) :
    (change r).kind = r.kind := by
  rw [← Request.kind_stub, h.stub, Request.kind_stub]

theorem root_eq {change : Request → Request} (h : ReaderChange change) (r : Request) :
    (change r).root = r.root := by
  rw [← Request.root_stub, h.stub, Request.root_stub]

/-- Changing requests does not change what number they have. -/
theorem map_id {change : Request → Request} (h : ReaderChange change) (rs : List Request) :
    (rs.map change).map Request.id = rs.map Request.id := by
  rw [List.map_map]
  exact List.map_congr_left fun r _ => h.id_eq r

end ReaderChange

theorem LeafSink.attached_take (sink : LeafSink) : sink.take.2.attached = sink.attached := by
  unfold take
  cases sink.buffer <;> rfl

theorem LeafSink.attached_dropReader (sink : LeafSink) :
    sink.dropReader.attached = sink.attached := rfl

/-- Actions that leave the requests alone, up to what is in their sinks, and
neither close the manager nor forbid or allow pruning. -/
def Action.isAside : Action → Bool
  | .enterPruning | .exitPruning | .submit _ _ _ | .withdraw _ | .close => false
  | _ => true

namespace Manager

theorem mapRequests_id (m : Manager) : m.mapRequests id = m := by
  rcases m with ⟨_, _, _, _, _, _, _, _, _, dispatcher, _, _, _, _⟩
  cases dispatcher <;> simp [mapRequests]

theorem live_mapRequests (m : Manager) (change : Request → Request) :
    (m.mapRequests change).live = m.live.map change := by
  cases held : m.dispatcher <;>
    simp [mapRequests, live, Dispatcher.held, held, Function.comp_def]

/-! ## Actions -/

/-- An action that changes nothing but the vault and the hub. -/
theorem aside_of_eq {m : Manager} {a : Action}
    (h : m.act a = { m with vault := (m.act a).vault, hub := (m.act a).hub }) :
    ∃ change vault hub, ReaderChange change ∧
      m.act a = { m.mapRequests change with vault, hub } := by
  refine ⟨id, (m.act a).vault, (m.act a).hub, .refl, ?_⟩
  rw [mapRequests_id]
  exact h

/-- What an action does that leaves the requests alone. -/
theorem act_aside (m : Manager) {a : Action} (h : a.isAside = true) :
    ∃ change vault hub, ReaderChange change ∧
      m.act a = { m.mapRequests change with vault, hub } := by
  cases a with
  | takeLeaf id => exact ⟨_, m.vault, m.hub, .ofSink id LeafSink.attached_take, rfl⟩
  | dropReader id => exact ⟨_, m.vault, m.hub, .ofSink id LeafSink.attached_dropReader, rfl⟩
  | checkEpoch epoch =>
    refine aside_of_eq ?_
    simp only [act, checkEpoch, deliverEpochs_eq]
  | put | remove | addDirty | selectEpoch | confirmEpoch | setRefusals => exact aside_of_eq rfl
  | enterPruning | exitPruning | submit | withdraw | close => cases h

theorem act_close (m : Manager) : ∃ vault, m.act .close = { m with vault, closed := true } := by
  simp only [act, close]
  split
  · next closed => exact ⟨m.vault, by rw [← closed]⟩
  · exact ⟨_, rfl⟩

/-- A submission ends at once, or waits for room in its queue. -/
theorem act_submit (m : Manager) (kind : RequestKind) (root : NodeHash) (sink : Option LeafSink) :
    let r : Request := { id := m.submitted, kind, root, sink, stats := Statistics.start {} }
    ((m.closed = true ∨ root.isEmptyTrie = true) ∧
      m.act (.submit kind root sink) =
        { m with submitted := m.submitted + 1, finished := m.finished ++ [r.finish] }) ∨
    ((m.closed = false ∧ root.isEmptyTrie = false) ∧
      m.act (.submit kind root sink) =
        { m with
          submitted := m.submitted + 1
          pruning := m.pruning + 1
          vault := { m.vault with tracker := trackerOnSubmit m.vault.tracker kind root }
          waiting := m.waiting ++ [r] }) := by
  simp only [act, submit]
  split
  · next settled => exact .inl ⟨by simpa using settled, rfl⟩
  · next open_ => exact .inr ⟨by simpa using open_, rfl⟩

/-- Closing closes a manager, and nothing else does. -/
theorem closed_act (m : Manager) (a : Action) :
    (m.act a).closed = true ↔ m.closed = true ∨ a = .close := by
  by_cases aside : a.isAside = true
  · obtain ⟨change, vault, hub, -, same⟩ := act_aside m aside
    have other : a ≠ .close := by
      rintro rfl
      cases aside
    rw [same]
    exact (or_iff_left other).symm
  · cases a with
    | close =>
      obtain ⟨vault, same⟩ := act_close m
      rw [same]
      simp
    | withdraw | enterPruning | exitPruning => exact (or_iff_left (by simp)).symm
    | submit kind root sink =>
      rcases act_submit m kind root sink with ⟨-, same⟩ | ⟨-, same⟩
      all_goals
        rw [same]
        exact (or_iff_left (by simp)).symm
    | _ => exact absurd rfl aside

end Manager

end TrieStorage

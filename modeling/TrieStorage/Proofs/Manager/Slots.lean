import TrieStorage.Proofs.Manager.Ledger

/-!
# Slots

A walk holds a slot from its admission until it releases it, so the slots taken
are those that were taken at the start and those of the walks.
-/

namespace TrieStorage

namespace Manager

/-- How many walks hold a slot. -/
def holders (m : Manager) : Nat := m.walks.countP fun w => w.phase.holdsSlot

/-- Whether a walk holds a slot, as a number. -/
def slotOf (w : Walk) : Nat := if w.phase.holdsSlot = true then 1 else 0

theorem holders_eq {m : Manager} {id : RequestId} {w : Walk} (hn : m.walkIds.Nodup)
    (found : m.walk? id = some w) :
    m.holders = (m.otherWalks id).countP (fun x => x.phase.holdsSlot) + slotOf w := by
  rw [holders, (walks_perm hn found).countP_eq, List.countP_cons]
  rfl

theorem holders_setWalk {m : Manager} {id : RequestId} {w w' : Walk} (hn : m.walkIds.Nodup)
    (found : m.walk? id = some w) (same : w'.request.id = id) :
    (m.setWalk w').holders =
      (m.otherWalks id).countP (fun x => x.phase.holdsSlot) + slotOf w' := by
  rw [holders, (setWalk_perm hn found same).countP_eq, List.countP_cons]
  rfl

/-- Beside some that were taken before, the slots taken are those of the walks. -/
def SlotsTaken (before : Nat) (m : Manager) : Prop := m.throttle.current = before + m.holders

namespace SlotsTaken

variable {before : Nat} {m m' : Manager}

/-- A walk that keeps its slot changes nothing about slots. -/
theorem going (h : SlotsTaken before m) (hn : m.walkIds.Nodup) {id : RequestId} {w w' : Walk}
    (found : m.walk? id = some w) (same : w'.request.id = id) (holds : slotOf w' = slotOf w)
    (vault : Vault) : SlotsTaken before { m.setWalk w' with vault } := by
  have : (m.setWalk w').holders = m.holders := by
    rw [holders_setWalk hn found same, holders_eq hn found, holds]
  show m.throttle.current = before + (m.setWalk w').holders
  rw [this]
  exact h

theorem slotOf_of_phase {w : Walk} {phase : WalkPhase} (h : w.phase = phase) :
    slotOf w = if phase.holdsSlot = true then 1 else 0 := by rw [slotOf, h]

theorem slotOf_start (w : Walk) (v : Vault) : slotOf (w.start v).1 = 1 := by
  obtain ⟨-, ⟨e, -, h⟩ | ⟨-, h⟩ | ⟨target, -, h⟩⟩ := Walk.start_cases w v <;> rw [h] <;> rfl

theorem holdsSlot_afterCopy (r : Request) (target : LayerId) (node : Node)
    (stack : List NodeHash) : (Walk.afterCopy r target node stack).holdsSlot = true := by
  unfold Walk.afterCopy
  split
  · split <;> rfl
  · rfl

theorem slotOf_visit (closed : Bool) (w : Walk) (v : Vault) (target : LayerId)
    (stack : List NodeHash) : slotOf (w.visit closed v target stack).1 = 1 := by
  have h := Walk.visited closed w v target stack
  generalize (w.visit closed v target stack).1 = w', (w.visit closed v target stack).2 = v' at h
  cases h with
  | copied => exact if_pos (holdsSlot_afterCopy ..)
  | _ => rfl

theorem slotOf_send (closed : Bool) (w : Walk) (target : LayerId) (leaf : Leaf)
    (stack : List NodeHash) : slotOf (w.send closed target leaf stack) = 1 := by
  cases closed <;> rfl

/-- Moves keep the slots in order. -/
theorem move (h : SlotsTaken before m) (hn : m.walkIds.Nodup) {mv : Move}
    (hm : m.move? mv = some m') : SlotsTaken before m' := by
  cases move?_walks hm with
  | still walks throttle _ =>
    unfold SlotsTaken holders
    rw [walks, throttle]
    exact h
  | launched r _ walks throttle _ =>
    unfold SlotsTaken holders
    rw [walks, throttle, List.countP_append]
    exact (congrArg (· + 1) h).trans (Nat.add_assoc ..)
  | @begun w found phase =>
    have number := congrArg Request.id (Walk.request_start w m.vault)
    exact h.going hn found number ((slotOf_start ..).trans (slotOf_of_phase phase).symm) _
  | @visited w target stack found phase =>
    have number := Request.id_of_stub (Walk.stub_visit m.closed w m.vault target stack)
    exact h.going hn found number ((slotOf_visit ..).trans (slotOf_of_phase phase).symm) _
  | @sent w target leaf stack found phase _ =>
    have number := Request.id_of_stub (Walk.stub_send m.closed w target leaf stack)
    exact h.going hn found number ((slotOf_send ..).trans (slotOf_of_phase phase).symm) _
  | @released w outcome found phase =>
    have taken := holders_eq hn found
    rw [slotOf_of_phase phase] at taken
    have given : (m.setWalk (w.inPhase (.released outcome))).holders =
        (m.otherWalks w.request.id).countP fun x => x.phase.holdsSlot :=
      holders_setWalk hn found rfl
    show m.throttle.current - 1 = before + (m.setWalk (w.inPhase (.released outcome))).holders
    rw [h, taken, given]
    rfl
  | left found phase walks throttle _ =>
    have kept := holders_eq hn found
    rw [slotOf_of_phase phase] at kept
    unfold SlotsTaken holders
    rw [walks, throttle, h, kept]
    rfl

/-- So do actions. -/
theorem action (h : SlotsTaken before m) (a : Action) : SlotsTaken before (m.act a) := by
  by_cases aside : a.isAside = true
  · obtain ⟨change, vault, hub, -, same⟩ := act_aside m aside
    rw [same]
    have holders : (m.mapRequests change).holders = m.holders := by
      simp only [Manager.holders, mapRequests, List.countP_map, Function.comp_def]
    show m.throttle.current = before + (m.mapRequests change).holders
    rw [holders]
    exact h
  · cases a with
    | withdraw | enterPruning | exitPruning => exact h
    | submit kind root sink =>
      rcases act_submit m kind root sink with ⟨-, same⟩ | ⟨-, same⟩
      all_goals
        rw [same]
        exact h
    | close =>
      obtain ⟨vault, same⟩ := act_close m
      rw [same]
      exact h
    | _ => exact absurd rfl aside

end SlotsTaken

/-- After every run, the slots taken since the start are those of the walks. -/
theorem SlotsTaken.of_run {parts : Parts} {disk : Disk} {refusals : Refusals} {m₀ m : Manager}
    {events : List Event} (made : assemble parts disk refusals = .ok m₀)
    (ran : m₀.run? events = some m) : SlotsTaken m₀.throttle.current m := by
  refine run?_induction (P := fun _ m => SlotsTaken m₀.throttle.current m) ?_ ?_ ran
  · obtain ⟨vault, throttle, hub, rfl⟩ := assemble_eq_ok made
    rfl
  · intro events n e n' hn h hs
    cases e with
    | move mv => exact h.move (Ledger.of_run made hn).nodup_walkIds hs
    | action a =>
      simp only [step?, Option.some.injEq] at hs
      rw [← hs]
      exact h.action a

end Manager

end TrieStorage

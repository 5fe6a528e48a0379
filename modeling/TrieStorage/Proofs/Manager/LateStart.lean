import TrieStorage.Proofs.Manager.Migration

/-!
# Managers that start late

A hub remembers the epoch confirmed last, and that is all a manager hears of that is built on
it later.  A manager that was there before has heard every epoch, and one that was late enough
has retired its old layout for good.  The two agree unless an epoch that retires the layout was
followed by one that does not.
-/

namespace TrieStorage

/-- The event does not close the manager, and confirms no epoch to it past the hub. -/
def Event.viaHub : Event → Bool
  | .action .close => false
  | .action (.confirmEpoch _) => false
  | _ => true

namespace Manager

variable {m m' : Manager} {e : Event} {events : List Event}

/-! ## The hub -/

theorem deliverEpochs_hub (m : Manager) (deliveries : List (Unit × Epoch)) :
    (m.deliverEpochs deliveries).hub = m.hub := by
  rw [deliverEpochs_eq]

theorem hub_checkEpoch (m : Manager) (epoch : Epoch) :
    (m.checkEpoch epoch).hub = { m.hub with current := some epoch } :=
  deliverEpochs_hub _ _

/-- Confirming an epoch through the hub is the only step that the hub's epoch is set by. -/
theorem current_step (via : e.viaHub = true) (stepped : m.step? e = some m') :
    m'.hub.current = e.confirmed.getLast?.or m.hub.current := by
  cases e with
  | move mv => rw [(move?_frame stepped).2.2.2]; rfl
  | action a =>
    cases Option.some.inj stepped
    cases a with
    | checkEpoch epoch => rw [Manager.act, hub_checkEpoch]; rfl
    | submit kind root sink =>
      rcases act_submit m kind root sink with ⟨-, same⟩ | ⟨-, same⟩
      all_goals rw [same]; rfl
    | confirmEpoch epoch => cases via
    | close => cases via
    | _ => rfl

/-- The hub remembers the last of the epochs heard, whatever else has happened. -/
theorem current_run {m₀ : Manager} {heard : List Epoch} (start : m₀.hub.current = heard.getLast?)
    (via : ∀ e ∈ events, e.viaHub = true) (ran : m₀.run? events = some m) :
    m.hub.current = (heard ++ events.flatMap Event.confirmed).getLast? := by
  refine run?_induction (P := fun events m => (∀ e ∈ events, e.viaHub = true) →
      m.hub.current = (heard ++ events.flatMap Event.confirmed).getLast?) ?_
    (fun _ ih stepped via => ?_) ran via
  · intro _
    simpa using start
  · simp only [List.mem_append, List.mem_singleton, or_imp, forall_and, forall_eq] at via
    rw [current_step via.2 stepped, ih via.1, List.flatMap_append, List.flatMap_singleton,
      ← List.append_assoc, ← List.getLast?_append]

theorem current_assemble {parts : Parts} {disk : Disk} {refusals : Refusals}
    (made : assemble parts disk refusals = .ok m) : m.hub.current = parts.heard.getLast? := by
  obtain ⟨n, composed, rfl, -, -⟩ := assemble_cases made
  obtain ⟨_, _, _, _, _, _, hub, _, -, -, -, -, -, -, given, -, -, rfl⟩ := compose_eq_ok composed
  simp only [Parts.heard, given, Option.bind_some, joinHub, discover, deliverEpochs_eq,
    EpochHub.register]
  cases hub.current <;> rfl

/-! ## Early and late -/

/-- An early manager has heard epochs of its hub only, and a late one is built of the same
settings on the hub as it is now.  The late one has retired the old layout if, and only if, the
last of the epochs retires it, the early one if any of them does; so the two agree on whether
it is disabled and on its phase exactly if some epoch retiring the layout means that the last
one does. -/
theorem late_start_agrees_iff {parts parts' : Parts} {disk disk' : Disk}
    {refusals refusals' : Refusals} {m₀ m late : Manager} {events : List Event}
    (made : assemble parts disk refusals = .ok m₀) (ran : m₀.run? events = some m)
    (via : ∀ e ∈ events, e.viaHub = true)
    (built : assemble parts' disk' refusals' = .ok late)
    (config : parts'.config = parts.config) (hub : parts'.hub = some m.hub) :
    (late.vault.legacy.disabled = m.vault.legacy.disabled ∧
        late.vault.legacy.phase = m.vault.legacy.phase) ↔
      ((∃ epoch ∈ parts.heard ++ events.flatMap Event.confirmed,
          parts.config.disableOldStorageEpoch ≤ epoch) →
        ∃ epoch, (parts.heard ++ events.flatMap Event.confirmed).getLast? = some epoch ∧
          parts.config.disableOldStorageEpoch ≤ epoch) := by
  have shut : m.closed = false := by
    have opened : Event.action .close ∉ events := fun closes => by cases via _ closes
    rw [← Bool.not_eq_true, closed_run ran, open_assemble made]
    simp [opened]
  have heard : parts'.heard =
      (parts.heard ++ events.flatMap Event.confirmed).getLast?.toList := by
    rw [← current_run (current_assemble made) via ran, Parts.heard, hub]
    rfl
  have early := (migrated_of_run made ran).vault
  have after := (migrated_assemble built).vault
  have settings : m.vault.config = parts.config := (config_run ran).trans (config_assemble made)
  have settings' : late.vault.config = parts.config := (config_assemble built).trans config
  -- both are open, so that the phases agree as soon as both or none is disabled
  have phases (same : late.vault.legacy.disabled = m.vault.legacy.disabled) :
      late.vault.legacy.phase = m.vault.legacy.phase := by
    rw [after.phase, early.phase, same, shut, open_assemble built]
  rw [and_iff_left_of_imp phases, Bool.eq_iff_iff, after.disabled, early.disabled, heard]
  simp only [Vault.retires, settings, settings', decide_eq_true_eq, Option.mem_toList]
  -- the last epoch is one of them
  refine ⟨Iff.mpr, fun lasts => ⟨?_, lasts⟩⟩
  rintro ⟨epoch, last, retires⟩
  exact ⟨epoch, List.mem_of_getLast? last, retires⟩

/-- A manager on a fresh hub, whose old layout is retired from epoch 5 on. -/
def retiringAtFive : Parts := inMemory { disableOldStorageEpoch := 5 } none

/-- The same parts on the hub of a manager. -/
def onHubOf (parts : Parts) (m : Manager) : Parts := { parts with hub := some m.hub }

/-- An early manager and a late one that have been looked at exist. -/
theorem exists_of_late (parts : Parts) (events : List Event) {P : Manager → Manager → Prop}
    [∀ m late, Decidable (P m late)]
    (h : (runFrom parts {} events).any (fun m =>
      (assemble (onHubOf parts m) {} []).toOption.any fun late => decide (P m late)) = true) :
    ∃ m late, runFrom parts {} events = some m ∧
      assemble (onHubOf parts m) {} [] = .ok late ∧ P m late := by
  obtain ⟨m, ran, looked⟩ := (Option.any_eq_true _ _).1 h
  cases built : assemble (onHubOf parts m) {} [] with
  | error e =>
    rw [built] at looked
    cases looked
  | ok late =>
    rw [built] at looked
    exact ⟨m, late, ran, built, of_decide_eq_true looked⟩

/-- After rising epochs the late manager is disabled as the early one is. -/
theorem risingEpochs_agree : ∃ m late,
    runFrom retiringAtFive {} [.action (.checkEpoch 3), .action (.checkEpoch 10)] = some m ∧
    assemble (onHubOf retiringAtFive m) {} [] = .ok late ∧ m.vault.legacy.disabled = true ∧
    late.vault.legacy.disabled = m.vault.legacy.disabled ∧
    late.vault.legacy.phase = m.vault.legacy.phase := by
  obtain ⟨m, late, ran, built, disabled⟩ := exists_of_late retiringAtFive
    [.action (.checkEpoch 3), .action (.checkEpoch 10)]
    (P := fun m _ => m.vault.legacy.disabled = true) (by decide +kernel)
  obtain ⟨m₀, made, ran'⟩ := of_runFrom ran
  refine ⟨m, late, ran, built, disabled, ?_⟩
  exact (late_start_agrees_iff made ran' (by decide) built rfl rfl).2
    fun _ => ⟨10, by decide, by decide⟩

/-- An epoch that is too early follows the one that retires the layout: the early manager is
disabled for good, and the late one is not. -/
theorem fallingEpochs_disagree : ∃ m late,
    runFrom retiringAtFive {} [.action (.checkEpoch 10), .action (.checkEpoch 3)] = some m ∧
    assemble (onHubOf retiringAtFive m) {} [] = .ok late ∧
    m.vault.legacy.disabled = true ∧ m.vault.legacy.phase = .closed ∧
    late.vault.legacy.disabled = false ∧ late.vault.legacy.phase = .active :=
  exists_of_late _ _ (by decide +kernel)

end Manager

end TrieStorage

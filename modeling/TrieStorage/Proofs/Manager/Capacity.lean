import TrieStorage.Proofs.Manager.Accounts
import TrieStorage.Proofs.Manager.Generations
import TrieStorage.Proofs.Manager.Slots
import TrieStorage.Proofs.Walk.Trie

/-!
# How many walks run at the same time

The dispatcher looks for a free slot and takes it.  Only it takes slots, so a slot
that it has seen to be free stays free until then, and no more slots are ever taken
than there are.  A walk gives back its slot once, however it ends, so giving back never
meets a throttle from which nothing has been taken.
-/

namespace TrieStorage

/-- How many slots a manager made of parts has. -/
def Parts.slots (parts : Parts) : Nat :=
  match parts.throttle with
  | some throttle => throttle.max
  | none => parts.config.maxConcurrentSnapshots

/-- The throttle that is given, if there is one, has not been used. -/
def Parts.Unthrottled (parts : Parts) : Prop :=
  ∀ throttle, parts.throttle = some throttle → throttle.current = 0 ∧ throttle.peak = 0

namespace Event

/-- An admission takes a slot. -/
def takesSlot : Event → Bool
  | .move .launch => true
  | _ => false

/-- A walk gives its slot back. -/
def returnsSlot : Event → Bool
  | .move (.release _) => true
  | _ => false

end Event

namespace Manager

variable {m m' : Manager}

/-- What a step does to the throttle: an admission takes a slot that is free, and a
walk that has one gives it back. -/
inductive SlotStep (m : Manager) (e : Event) (m' : Manager) : Prop where
  | keeps (takes : e.takesSlot = false) (returns : e.returnsSlot = false)
      (same : m'.throttle = m.throttle)
  | takes (takes : e.takesSlot = true) (returns : e.returnsSlot = false)
      (free : m.throttle.canProcess = true) (same : m'.throttle = m.throttle.start)
  | returns (takes : e.takesSlot = false) (returns : e.returnsSlot = true)
      (taken : 0 < m.holders) (same : m'.throttle = m.throttle.finish)

theorem throttle_act (m : Manager) (a : Action) : (m.act a).throttle = m.throttle := by
  by_cases aside : a.isAside = true
  · obtain ⟨change, vault, hub, -, same⟩ := act_aside m aside
    rw [same]
    rfl
  · cases a with
    | withdraw | enterPruning | exitPruning => rfl
    | submit kind root sink =>
      rcases act_submit m kind root sink with ⟨-, same⟩ | ⟨-, same⟩
      all_goals rw [same]
    | close =>
      obtain ⟨vault, same⟩ := act_close m
      rw [same]
    | _ => exact absurd rfl aside

theorem slotStep {e : Event} (stepped : m.step? e = some m') : SlotStep m e m' := by
  cases e with
  | action a =>
    cases Option.some.inj stepped
    exact .keeps rfl rfl (m.throttle_act a)
  | move mv =>
    -- an admission is told by its own equation, since it also moves the walks
    by_cases launches : mv = .launch
    · subst launches
      obtain ⟨r, -, free, rfl⟩ := launch?_eq_some stepped
      exact .takes rfl rfl free rfl
    by_cases releases : ∃ id, mv = .release id
    · obtain ⟨id, rfl⟩ := releases
      obtain ⟨w, outcome, found, phase, rfl⟩ := release?_eq_some stepped
      have holds : w.phase.holdsSlot = true := by rw [phase]; rfl
      exact .returns rfl rfl (List.countP_pos_iff.2 ⟨w, (walk?_eq_some found).1, holds⟩) rfl
    have takes : Event.takesSlot (.move mv) = false := by
      cases mv with
      | launch => exact absurd rfl launches
      | _ => rfl
    have returns : Event.returnsSlot (.move mv) = false := by
      cases mv with
      | release id => exact absurd ⟨id, rfl⟩ releases
      | _ => rfl
    refine .keeps takes returns ?_
    cases move?_walks stepped with
    | still _ throttle _ | left _ _ _ throttle _ _ => exact throttle
    | launched _ _ _ _ _ => exact absurd rfl launches
    | released _ _ => exact absurd ⟨_, rfl⟩ releases
    | begun _ _ | visited _ _ | sent _ _ _ => rfl

/-- A slot that is free stays free as long as nothing is admitted. -/
theorem canProcess_run {events : List Event} (free : m.throttle.canProcess = true)
    (ran : m.run? events = some m') (idle : ∀ e ∈ events, e.takesSlot = false) :
    m'.throttle.canProcess = true := by
  revert idle
  refine run?_induction (P := fun events m' => (∀ e ∈ events, e.takesSlot = false) →
    m'.throttle.canProcess = true) (fun _ => free) (fun {before n e n'} _ ih stepped idle => ?_) ran
  have before := ih fun e mem => idle e (List.mem_append_left _ mem)
  cases slotStep stepped with
  | keeps _ _ same =>
    rw [same]
    exact before
  | takes takes =>
    rw [idle e (by simp)] at takes
    cases takes
  | returns _ _ _ same =>
    simp only [Throttle.canProcess, decide_eq_true_eq] at before ⊢
    rw [same]
    exact Nat.lt_of_le_of_lt (Nat.sub_le ..) before

/-- The throttle stays within `max`, and its slots are those taken and not given back. -/
structure Bounded (max : Nat) (events : List Event) (m : Manager) : Prop where
  slots : m.throttle.max = max
  current : m.throttle.current ≤ max
  peak : m.throttle.peak ≤ max
  balance : m.throttle.current + events.countP Event.returnsSlot = events.countP Event.takesSlot

theorem Bounded.step {max : Nat} {events : List Event} {e : Event} (h : Bounded max events m)
    (holders : m.throttle.current = m.holders) (stepped : m.step? e = some m') :
    Bounded max (events ++ [e]) m' := by
  have balance := h.balance
  have counts (p : Event → Bool) :
      (events ++ [e]).countP p = events.countP p + if p e = true then 1 else 0 := by
    rw [List.countP_append, List.countP_singleton]
  cases slotStep stepped with
  | keeps takes returns same =>
    refine ⟨?_, ?_, ?_, ?_⟩
    all_goals rw [same]
    · exact h.slots
    · exact h.current
    · exact h.peak
    · rw [counts, counts, takes, returns]
      exact balance
  | takes takes returns free same =>
    have room : m.throttle.current < max := by
      rw [← h.slots]
      exact of_decide_eq_true free
    refine ⟨?_, ?_, ?_, ?_⟩
    all_goals rw [same]
    · exact h.slots
    · exact room
    · exact Nat.max_le.2 ⟨h.peak, room⟩
    · rw [counts, counts, takes, returns]
      simp only [Throttle.start, if_true, Bool.false_eq_true, if_false]
      omega
  | returns takes returns taken same =>
    refine ⟨?_, ?_, ?_, ?_⟩
    all_goals rw [same]
    · exact h.slots
    · exact Nat.le_trans (Nat.sub_le ..) h.current
    · exact h.peak
    · rw [counts, counts, takes, returns]
      simp only [Throttle.finish, if_true, Bool.false_eq_true, if_false]
      omega

/-- After every run of a manager that has its throttle to itself: the slots taken are
those of the walks that have been admitted and have not given theirs back, as many as
there were admissions beyond the slots given back; there are never more of them than the
throttle has, nor have there been at any time.  A slot that is free stays free until the
next admission, so the dispatcher may take its time between looking and taking. -/
theorem run_bounded {parts : Parts} {disk : Disk} {refusals : Refusals} {m₀ : Manager}
    {events : List Event} (made : assemble parts disk refusals = .ok m₀)
    (unused : parts.Unthrottled) (ran : m₀.run? events = some m) :
    m.throttle.max = parts.slots ∧ m.throttle.current = m.holders ∧
      m.throttle.current + events.countP Event.returnsSlot = events.countP Event.takesSlot ∧
      m.throttle.current ≤ parts.slots ∧ m.throttle.peak ≤ parts.slots ∧
      ∀ more m', m.throttle.canProcess = true → m.run? more = some m' →
        (∀ e ∈ more, e.takesSlot = false) → m'.throttle.canProcess = true := by
  have start : m₀.throttle.max = parts.slots ∧ m₀.throttle.current = 0 ∧
      m₀.throttle.peak = 0 := by
    obtain ⟨n, composed, rfl, -, -⟩ := assemble_cases made
    obtain ⟨_, _, _, _, _, _, _, throttle, -, -, -, -, -, -, -, -, chosen, rfl⟩ :=
      compose_eq_ok composed
    simp only [joinHub, discover, deliverEpochs_eq, Parts.slots]
    rcases chosen with given | ⟨none_, rfl⟩
    · rw [given]
      exact ⟨rfl, unused throttle given⟩
    · rw [none_]
      exact ⟨rfl, rfl, rfl⟩
  have holders {n : Manager} {before : List Event} (first : m₀.run? before = some n) :
      n.throttle.current = n.holders := by
    have taken := SlotsTaken.of_run made first
    rw [start.2.1] at taken
    exact taken.trans (Nat.zero_add _)
  have bounded : Bounded parts.slots events m := by
    refine run?_induction (P := fun events m => Bounded parts.slots events m) ?_
      (fun first ih stepped => ih.step (holders first) stepped) ran
    refine ⟨start.1, ?_, ?_, start.2.1⟩
    · rw [start.2.1]
      exact Nat.zero_le _
    · rw [start.2.2]
      exact Nat.zero_le _
  exact ⟨bounded.slots, holders ran, bounded.balance, bounded.current, bounded.peak,
    fun more m' free later idle => canProcess_run free later idle⟩

/-- Three snapshots of a root that no store has on two slots: the first is abandoned and gives its
slot back, so that the third is admitted, and closing cancels what is left. -/
def crowdedRun : List Event :=
  let enter (id : RequestId) : List Event :=
    [.action (.submit .snapshot Walk.rootHash none), .move (.grant id), .move (.enqueue id),
      .move (.dequeue .snapshot), .move .launch]
  enter 0 ++ enter 1 ++ [.move (.begin 0), .move (.release 0)] ++ enter 2 ++
    [.action .close, .move (.begin 2), .move (.release 2)]

theorem crowdedRun_bounded : ∃ m, runFrom (inMemory {} none) {} crowdedRun = some m ∧
    (inMemory {} none).slots = 2 ∧ m.throttle.current = 1 ∧ m.throttle.peak ≤ 2 ∧
    m.holders = 1 := by
  obtain ⟨m, ran, current⟩ : ∃ m, runFrom (inMemory {} none) {} crowdedRun = some m ∧
      m.throttle.current = 1 := exists_of_runFrom (by decide +kernel)
  obtain ⟨m₀, made, ran'⟩ := of_runFrom ran
  have unused : (inMemory {} none).Unthrottled := nofun
  obtain ⟨-, holders, -, -, peak, -⟩ := run_bounded made unused ran'
  exact ⟨m, ran, rfl, current, peak, by rw [← holders, current]⟩

end Manager

end TrieStorage

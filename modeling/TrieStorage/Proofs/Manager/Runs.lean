import Mathlib.Data.List.Induction
import Mathlib.Data.List.Infix
import Mathlib.Logic.Function.Iterate
import TrieStorage.Manager.Assembly
import TrieStorage.Manager.Event
import TrieStorage.Proofs.Bytes.Layout

/-!
# Runs

A run can be cut anywhere, so what holds at the start and is kept by every step
holds after every run, and at every moment of a run that goes on for ever.  A
manager that has just been put together holds no request and blocks nothing.
-/

namespace TrieStorage

namespace Manager

/-! ## Cutting runs -/

theorem run?_append (m : Manager) (before after : List Event) :
    m.run? (before ++ after) = (m.run? before).bind fun n => n.run? after := by
  induction before generalizing m with
  | nil => rfl
  | cons e rest ih =>
    simp only [List.cons_append, run?]
    cases m.step? e with
    | none => rfl
    | some n => exact ih n

theorem run?_concat {m m' : Manager} {events : List Event} {e : Event} :
    m.run? (events ++ [e]) = some m' ↔ ∃ n, m.run? events = some n ∧ n.step? e = some m' := by
  rw [run?_append, Option.bind_eq_some_iff]
  refine exists_congr fun n => and_congr_right fun _ => ?_
  simp only [run?, Option.bind_fun_some]

/-- What holds at the start and is kept by every step holds after every run. -/
theorem run?_induction {m₀ : Manager} {P : List Event → Manager → Prop} (start : P [] m₀)
    (step : ∀ {events m e m'}, m₀.run? events = some m → P events m → m.step? e = some m' →
      P (events ++ [e]) m') {events : List Event} :
    ∀ {m}, m₀.run? events = some m → P events m := by
  induction events using List.reverseRecOn with
  | nil =>
    intro m h
    cases h
    exact start
  | append_singleton events e ih =>
    intro m h
    obtain ⟨n, before, last⟩ := run?_concat.1 h
    exact step before (ih before) last

/-! ## Moments of a run -/

/-- Whether something holds, at every moment of a run, of what has been done and of the manager. -/
def Always (m₀ : Manager) (events : List Event) (P : List Event → Manager → Prop) : Prop :=
  ∀ before n, before <+: events → m₀.run? before = some n → P before n

instance (m₀ : Manager) (events : List Event) (P : List Event → Manager → Prop)
    [∀ before n, Decidable (P before n)] : Decidable (m₀.Always events P) :=
  decidable_of_iff (∀ before ∈ events.inits, ∀ n ∈ m₀.run? before, P before n) <| by
    simp only [List.mem_inits, Always, Option.mem_def]
    exact forall_congr' fun before => ⟨fun h n front => h front n, fun h front n => h n front⟩

theorem Always.of_prefix {m₀ : Manager} {events before : List Event}
    {P : List Event → Manager → Prop} (h : m₀.Always events P) (front : before <+: events) :
    m₀.Always before P :=
  fun early n first => h early n (first.trans front)

theorem Always.of_cons {m₀ m : Manager} {e : Event} {rest : List Event}
    {P : List Event → Manager → Prop} (h : m₀.Always (e :: rest) P) (stepped : m₀.step? e = some m) :
    m.Always rest fun before => P (e :: before) := by
  intro before n front ran
  refine h (e :: before) n (List.cons_prefix_cons.2 ⟨rfl, front⟩) ?_
  rw [run?, stepped]
  exact ran

/-! ## Counting in a word -/

/-- The manager with what forbids pruning counted in 32 bits. -/
def inWord (m : Manager) : Manager := { m with pruning := m.pruning % UInt32.size }

/-- A step that counts in 32 bits: one more than the count can tell is none. -/
def stepInWord? (m : Manager) (e : Event) : Option Manager := (m.step? e).map inWord

/-- A run that counts in 32 bits. -/
def runInWord? (m : Manager) : List Event → Option Manager
  | [] => some m
  | e :: rest => (m.stepInWord? e).bind fun next => runInWord? next rest

/-- At no moment of a run is pruning forbidden more often than 32 bits can tell. -/
def Few (m₀ : Manager) (events : List Event) : Prop :=
  m₀.Always events fun _ n => n.pruning < UInt32.size

instance (m₀ : Manager) : DecidablePred m₀.Few := fun events =>
  inferInstanceAs (Decidable (m₀.Always events _))

theorem inWord_of_lt {m : Manager} (few : m.pruning < UInt32.size) : m.inWord = m := by
  unfold inWord
  rw [Nat.mod_eq_of_lt few]

/-- As long as the count fits, it does not matter that it is one of 32 bits. -/
theorem runInWord?_eq {m₀ : Manager} {events : List Event} (few : m₀.Few events) :
    m₀.runInWord? events = m₀.run? events := by
  induction events generalizing m₀ with
  | nil => rfl
  | cons e rest ih =>
    unfold runInWord? run? stepInWord?
    cases stepped : m₀.step? e with
    | none => rfl
    | some n =>
      have later : n.Few rest := few.of_cons stepped
      have fits : n.pruning < UInt32.size := later [] n List.nil_prefix rfl
      rw [Option.map_some, inWord_of_lt fits, Option.bind_some, Option.bind_some]
      exact ih later

/-- A count that is full begins anew, and then nothing seems to forbid pruning. -/
theorem isPruningBlocked_turned {m : Manager} (full : m.pruning + 1 = UInt32.size) :
    ∃ n, m.stepInWord? (.action .enterPruning) = some n ∧ n.isPruningBlocked = false := by
  refine ⟨_, rfl, ?_⟩
  simp only [inWord, act, enterPruning, isPruningBlocked, full, Nat.mod_self, bne_self_eq_false]

/-! ## Looking along runs -/

/-- What is seen along a run by looking before every event. -/
def along {α : Type} (see : Manager → Event → Option α) (m : Manager) : List Event → List α
  | [] => []
  | e :: rest => (see m e).toList ++ ((m.step? e).map fun next => along see next rest).getD []

theorem along_concat {α : Type} (see : Manager → Event → Option α) {m₀ n : Manager}
    {events : List Event} (ran : m₀.run? events = some n) (e : Event) :
    m₀.along see (events ++ [e]) = m₀.along see events ++ (see n e).toList := by
  induction events generalizing m₀ with
  | nil =>
    obtain rfl := Option.some.inj ran
    cases next : m₀.step? e <;> simp [along, next]
  | cons first rest ih =>
    obtain ⟨next, stepped, ran⟩ := Option.bind_eq_some_iff.1 ran
    rw [List.cons_append, along, along, stepped, Option.map_some, Option.map_some, Option.getD_some,
      Option.getD_some, ih ran, List.append_assoc]

/-! ## Endless runs -/

/-- A run that goes on for ever. -/
structure EndlessRun (m : Manager) where
  state : Nat → Manager
  event : Nat → Event
  start : state 0 = m
  next : ∀ i, (state i).step? (event i) = some (state (i + 1))

namespace EndlessRun

variable {m m' : Manager} {e : Event}

/-- What every event of a run keeps holds from the time on when it first holds. -/
theorem keeps (run : EndlessRun m) {P : Manager → Prop}
    (step : ∀ i, P (run.state i) → P (run.state (i + 1))) {i j : Nat} (later : i ≤ j)
    (holds : P (run.state i)) : P (run.state j) := by
  induction later with
  | refl => exact holds
  | @step j _ ih => exact step j ih

/-- What holds at the start and is kept by every event of a run holds for ever. -/
theorem always_holds (run : EndlessRun m) {P : Manager → Prop} (start : P m)
    (step : ∀ i, P (run.state i) → P (run.state (i + 1))) (i : Nat) : P (run.state i) :=
  run.keeps step (Nat.zero_le i) (run.start.symm ▸ start)

/-- A run in which an action is done again and again. -/
def always (m : Manager) (a : Action) : EndlessRun m where
  state i := (fun n => n.act a)^[i] m
  event _ := .action a
  start := rfl
  next i := by
    rw [Function.iterate_succ_apply']
    rfl

def cons (hs : m.step? e = some m') (run : EndlessRun m') : EndlessRun m where
  state
    | 0 => m
    | i + 1 => run.state i
  event
    | 0 => e
    | i + 1 => run.event i
  start := rfl
  next
    | 0 => by
      show m.step? e = some (run.state 0)
      rw [run.start]
      exact hs
    | i + 1 => run.next i

/-- A run can be gone on with by an endless one. -/
theorem exists_append {events : List Event} (ran : m.run? events = some m')
    (later : EndlessRun m') : ∃ run : EndlessRun m,
      (∀ i (h : i < events.length), run.event i = events[i]) ∧
      ∀ i, run.event (events.length + i) = later.event i ∧
        run.state (events.length + i) = later.state i := by
  induction events generalizing m with
  | nil =>
    cases ran
    exact ⟨later, fun i h => absurd h (Nat.not_lt_zero i), fun i => by simp⟩
  | cons first rest ih =>
    obtain ⟨next, stepped, ran⟩ := Option.bind_eq_some_iff.1 ran
    obtain ⟨run, front, back⟩ := ih ran
    refine ⟨.cons stepped run, fun i h => ?_, fun i => ?_⟩
    · cases i with
      | zero => rfl
      | succ i => exact front i (Nat.lt_of_succ_lt_succ h)
    · rw [List.length_cons, Nat.add_right_comm]
      exact back i

end EndlessRun

/-! ## The start -/

/-- Delivered epochs reach the vault one after the other. -/
theorem deliverEpochs_eq (deliveries : List (Unit × Epoch)) (m : Manager) :
    m.deliverEpochs deliveries = { m with
      vault := deliveries.foldl (fun v d => v.confirmEpoch m.closed d.2) m.vault } := by
  induction deliveries generalizing m with
  | nil => rfl
  | cons d rest ih => exact ih (m.confirmEpoch d.2)

theorem demand_eq_ok {α : Type} {part : Dependency} {found : Option α} {value : α} :
    demand part found = .ok value ↔ found = some value := by
  cases found <;> simp [demand]

/-- What a manager is composed of. -/
theorem compose_eq_ok {parts : Parts} {disk : Disk} {refusals : Refusals} {m : Manager}
    (h : compose parts disk refusals = .ok m) :
    ∃ db main checkpoints decode address tracker hub throttle,
      parts.db = some db ∧ parts.main = some main ∧ parts.checkpoints = some checkpoints ∧
      parts.marshaller = some decode ∧ parts.hasher = some address ∧
      parts.tracker = some tracker ∧ parts.hub = some hub ∧
      parts.config.complaint? = none ∧
      (parts.throttle = some throttle ∨ parts.throttle = none ∧
        throttle = { max := parts.config.maxConcurrentSnapshots }) ∧
      m = {
        vault := { config := parts.config, scheme := ⟨address, decode⟩, opener := parts.opener
                   storage :=
                     { disk, refusals
                       main := { name := .main, store := main }
                       db := { name := .db, store := db }
                       checkpoints := { name := .checkpoints, store := checkpoints } }
                   tracker }
        throttle, hub } := by
  unfold compose at h
  obtain ⟨db, hdb, h⟩ := bind_eq_ok h
  obtain ⟨main, hmain, h⟩ := bind_eq_ok h
  obtain ⟨checkpoints, hcheckpoints, h⟩ := bind_eq_ok h
  obtain ⟨decode, hdecode, h⟩ := bind_eq_ok h
  obtain ⟨address, haddress, h⟩ := bind_eq_ok h
  obtain ⟨tracker, htracker, h⟩ := bind_eq_ok h
  obtain ⟨hub, hhub, h⟩ := bind_eq_ok h
  obtain ⟨⟨⟩, valid, h⟩ := bind_eq_ok h
  have complaint : parts.config.complaint? = none := by
    unfold Config.validate at valid
    split at valid
    · cases valid
    · assumption
  have made : ∃ throttle, (parts.throttle = some throttle ∨ parts.throttle = none ∧
      throttle = { max := parts.config.maxConcurrentSnapshots }) ∧
      m = { vault := { config := parts.config, scheme := ⟨address, decode⟩, opener := parts.opener
                       storage :=
                         { disk, refusals
                           main := { name := .main, store := main }
                           db := { name := .db, store := db }
                           checkpoints := { name := .checkpoints, store := checkpoints } }
                       tracker }
            throttle, hub } := by
    split at h
    · next throttle given => exact ⟨throttle, .inl given, (Except.ok.inj h).symm⟩
    · next missing =>
      obtain ⟨throttle, made, h⟩ := bind_eq_ok h
      refine ⟨throttle, .inr ⟨missing, ?_⟩, (Except.ok.inj h).symm⟩
      unfold Throttle.make at made
      split at made
      · cases made
      · exact (Except.ok.inj made).symm
  obtain ⟨throttle, chosen, rfl⟩ := made
  exact ⟨db, main, checkpoints, decode, address, tracker, hub, throttle, demand_eq_ok.1 hdb,
    demand_eq_ok.1 hmain, demand_eq_ok.1 hcheckpoints, demand_eq_ok.1 hdecode,
    demand_eq_ok.1 haddress, demand_eq_ok.1 htracker, demand_eq_ok.1 hhub, complaint, chosen, rfl⟩

/-- A manager that has just been put together has done nothing with requests. -/
theorem assemble_eq_ok {parts : Parts} {disk : Disk} {refusals : Refusals} {m : Manager}
    (h : assemble parts disk refusals = .ok m) :
    ∃ vault throttle hub, m = { vault, throttle, hub } := by
  unfold assemble at h
  cases composed : compose parts disk refusals with
  | error e =>
    rw [composed] at h
    cases h
  | ok n =>
    rw [composed] at h
    simp only [Except.map, Except.ok.injEq] at h
    obtain ⟨_, _, _, _, _, _, _, _, -, -, -, -, -, -, -, -, -, rfl⟩ := compose_eq_ok composed
    rw [← h]
    simp only [joinHub, discover, deliverEpochs_eq]
    exact ⟨_, _, _, rfl⟩

theorem open_assemble {parts : Parts} {disk : Disk} {refusals : Refusals} {m : Manager}
    (h : assemble parts disk refusals = .ok m) : m.closed = false := by
  obtain ⟨_, _, _, rfl⟩ := assemble_eq_ok h
  rfl

/-- Empty stores in memory, and the scheme in use. -/
def inMemory (config : Config) (opener : Option Opener) : Parts :=
  { db := some (.memory {})
    main := some (.memory {})
    checkpoints := some (.memory {})
    marshaller := some Scheme.standard.decode
    hasher := some Scheme.standard.address
    tracker := some { budget := config.checkpointHashesMaxSize }
    hub := some {}
    opener, config }

/-- The manager made of parts, after a run. -/
def runFrom (parts : Parts) (disk : Disk) (events : List Event) : Option Manager :=
  (assemble parts disk []).toOption.bind fun m => m.run? events

theorem of_runFrom {parts : Parts} {disk : Disk} {events : List Event} {m : Manager}
    (h : runFrom parts disk events = some m) :
    ∃ m₀, assemble parts disk [] = .ok m₀ ∧ m₀.run? events = some m := by
  unfold runFrom at h
  cases made : assemble parts disk [] with
  | error e =>
    rw [made] at h
    cases h
  | ok m₀ =>
    rw [made] at h
    exact ⟨m₀, rfl, h⟩

/-- A manager that has been looked at has been composed. -/
theorem exists_of_compose {parts : Parts} {disk : Disk} {refusals : Refusals}
    {P : Manager → Prop} [DecidablePred P]
    (h : (compose parts disk refusals).toOption.any (fun m => decide (P m)) = true) :
    ∃ m, compose parts disk refusals = .ok m ∧ P m := by
  cases composed : compose parts disk refusals with
  | error e =>
    rw [composed] at h
    cases h
  | ok m =>
    rw [composed] at h
    exact ⟨m, rfl, of_decide_eq_true h⟩

/-- A run whose end has been looked at exists. -/
theorem exists_of_runFrom {parts : Parts} {disk : Disk} {events : List Event} {P : Manager → Prop}
    [DecidablePred P] (h : (runFrom parts disk events).any (fun m => decide (P m)) = true) :
    ∃ m, runFrom parts disk events = some m ∧ P m := by
  obtain ⟨m, ran, looked⟩ := (Option.any_eq_true _ _).1 h
  exact ⟨m, ran, of_decide_eq_true looked⟩

end Manager

end TrieStorage

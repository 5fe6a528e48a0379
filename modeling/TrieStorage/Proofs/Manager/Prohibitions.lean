import TrieStorage.Proofs.Manager.Accounts

/-!
# Prohibitions taken back too often

Callers and requests forbid pruning on one counter.  An exit takes one prohibition off it, whoever
put it there, and does nothing if there is none.  So a caller who takes back more than he has put
there takes from the requests: pruning stays blocked under every request that is under way exactly
as long as the callers have not taken back all there is.

The counter has 32 bits.  A run that never has more prohibitions than these can tell is the same
with them as without a bound, and the books are kept without one.

* `Blocking.of_held` keeps the books as long as no request ends with nothing left on the counter.
* `blocked_iff_covered` tells which runs keep pruning blocked under their requests.
-/

namespace TrieStorage

namespace Manager

variable {m₀ m n : Manager} {events : List Event}

/-- How often callers have taken back a prohibition that was there. -/
def taken (m : Manager) : List Event → Nat
  | [] => 0
  | e :: rest =>
    (if e = .action .exitPruning ∧ m.pruning ≠ 0 then 1 else 0) +
      ((m.step? e).map fun next => taken next rest).getD 0

theorem taken_concat (ran : m₀.run? events = some n) (e : Event) :
    m₀.taken (events ++ [e]) =
      m₀.taken events + if e = .action .exitPruning ∧ n.pruning ≠ 0 then 1 else 0 := by
  induction events generalizing m₀ with
  | nil =>
    obtain rfl := Option.some.inj ran
    cases next : m₀.step? e <;> simp [taken, next]
  | cons first rest ih =>
    obtain ⟨next, stepped, ran⟩ := Option.bind_eq_some_iff.1 ran
    rw [List.cons_append, taken, taken, stepped, Option.map_some, Option.map_some, Option.getD_some,
      Option.getD_some, ih ran, Nat.add_assoc]

/-- At no time with a request under way have callers taken back as much as they and the requests
have put on the counter; a request that was withdrawn has left its prohibition there. -/
def Covered (m₀ : Manager) (events : List Event) : Prop :=
  m₀.Always events fun before n => n.live ≠ [] →
    m₀.taken before < Event.enters before + n.live.length + n.withdrawn.length

instance (m₀ : Manager) : DecidablePred m₀.Covered := fun events =>
  inferInstanceAs (Decidable (m₀.Always events _))

theorem isPruningBlocked_iff : m.isPruningBlocked = true ↔ m.pruning ≠ 0 := bne_iff_ne

/-- The books are right after every run in which no request ends with nothing left on the counter:
it has what callers and requests put there, less what callers have taken back. -/
theorem Blocking.of_held {parts : Parts} {disk : Disk} {refusals : Refusals}
    (made : assemble parts disk refusals = .ok m₀) (ran : m₀.run? events = some m)
    (held : m₀.Always events fun before n => Blocking (Event.enters before) (m₀.taken before) n →
      n.live ≠ [] → n.pruning ≠ 0) :
    Blocking (Event.enters events) (m₀.taken events) m := by
  refine run?_induction
    (P := fun events m => (m₀.Always events fun before n =>
      Blocking (Event.enters before) (m₀.taken before) n → n.live ≠ [] → n.pruning ≠ 0) →
      Blocking (Event.enters events) (m₀.taken events) m) ?_ ?_ ran held
  · intro _
    obtain ⟨vault, throttle, hub, rfl⟩ := assemble_eq_ok made
    rfl
  · intro events n e n' hn ih hs held
    have h := ih (held.of_prefix (List.prefix_append ..))
    have there := held events n (List.prefix_append ..) hn h
    rw [Event.enters_concat, taken_concat hn]
    cases e with
    | move mv =>
      have live := (Ledger.of_run made hn).nodup_liveIds
      simpa using h.passage there (move?_passage live hs) (move?_frame hs).2.2.1
    | action a =>
      simp only [step?, Option.some.injEq] at hs
      rw [← hs]
      cases a with
      | enterPruning =>
        unfold Blocking at h ⊢
        show n.pruning + 1 + m₀.taken events =
          Event.enters events + 1 + n.live.length + n.withdrawn.length
        omega
      | exitPruning =>
        unfold Blocking at h ⊢
        show n.pruning - 1 + (m₀.taken events + if _ ∧ n.pruning ≠ 0 then 1 else 0) =
          Event.enters events + n.live.length + n.withdrawn.length
        by_cases left : n.pruning = 0
        · rw [if_neg fun both => both.2 left]
          omega
        · rw [if_pos ⟨rfl, left⟩]
          omega
      | submit kind root sink => simpa using h.submit kind root sink
      | withdraw id => simpa [act] using h.withdraw id
      | close =>
        obtain ⟨vault, same⟩ := act_close n
        rw [same, if_neg (by simp), if_neg (by simp)]
        exact h
      | _ => simpa using h.aside rfl

/-- An exit of a caller does nothing where nothing blocks pruning.  And a run that counts in 32
bits, and never has more prohibitions than these can tell, keeps pruning blocked at all times at
which a request has neither ended nor been withdrawn, exactly if at no such time the callers have
taken back all that they and the requests have put on the counter. -/
theorem blocked_iff_covered {parts : Parts} {disk : Disk} {refusals : Refusals}
    (made : assemble parts disk refusals = .ok m₀) (few : m₀.Few events) :
    (∀ n : Manager, n.isPruningBlocked = false → n.stepInWord? (.action .exitPruning) = some n) ∧
    ((∀ before n, before <+: events → m₀.runInWord? before = some n → n.live ≠ [] →
        n.isPruningBlocked = true) ↔ m₀.Covered events) := by
  have same {before : List Event} (front : before <+: events) :
      m₀.runInWord? before = m₀.run? before := runInWord?_eq (few.of_prefix front)
  have held (covered : m₀.Always events fun before n => n.live ≠ [] →
      Blocking (Event.enters before) (m₀.taken before) n → n.pruning ≠ 0)
      {before : List Event} {n : Manager} (front : before <+: events)
      (first : m₀.run? before = some n) :
      Blocking (Event.enters before) (m₀.taken before) n :=
    .of_held made first fun early k front' first' books some_ =>
      covered early k (front'.trans front) first' some_ books
  refine ⟨fun n free => ?_, fun safe before n front first some_ => ?_,
    fun covered before n front first some_ => ?_⟩
  · have zero : n.pruning = 0 := by simpa [isPruningBlocked] using free
    have kept : n.exitPruning = n := by
      unfold exitPruning
      rw [zero]
      cases n
      cases zero
      rfl
    have fits : n.pruning < UInt32.size := by
      rw [zero]
      decide
    show some n.exitPruning.inWord = some n
    rw [kept, inWord_of_lt fits]
  · have blocked {early : List Event} {k : Manager} (front' : early <+: events)
        (first' : m₀.run? early = some k) (some_ : k.live ≠ []) : k.pruning ≠ 0 :=
      isPruningBlocked_iff.1 (safe early k front' ((same front').trans first') some_)
    have books :=
      held (fun early k front' first' some_ _ => blocked front' first' some_) front first
    have := blocked front first some_
    unfold Blocking at books
    omega
  · have left (early : List Event) (k : Manager) (front' : early <+: events)
        (first' : m₀.run? early = some k) (some_ : k.live ≠ [])
        (books : Blocking (Event.enters early) (m₀.taken early) k) : k.pruning ≠ 0 := by
      have := covered early k front' first' some_
      unfold Blocking at books
      omega
    rw [same front] at first
    exact isPruningBlocked_iff.2 (left before n front first some_ (held left front first))

/-- What is copied under a root does not matter here, so the roots are any two hashes. -/
def firstRoot : NodeHash := ⟨List.replicate 32 8, List.length_replicate⟩

def secondRoot : NodeHash := ⟨List.replicate 32 9, List.length_replicate⟩

/-- A caller who has forbidden nothing takes a prohibition back before any request is submitted,
and again once there are two. -/
def spareRun : List Event :=
  [.action .exitPruning, .action (.submit .checkpoint firstRoot none),
    .action (.submit .snapshot secondRoot none), .action .exitPruning]

theorem spareRun_blocked : ∃ m₀ m, assemble (inMemory {} none) {} [] = .ok m₀ ∧
    m₀.Few spareRun ∧ m₀.runInWord? spareRun = some m ∧ ¬ Event.Balanced spareRun ∧
    m.live.length = 2 ∧ m₀.taken spareRun = 1 ∧ m.isPruningBlocked = true := by
  have made : assemble (inMemory {} none) {} [] = .ok _ := rfl
  have blocked := (blocked_iff_covered made (show Few _ spareRun by decide)).2.2 (by decide)
    spareRun _ List.prefix_rfl rfl
  exact ⟨_, _, made, by decide, rfl, by decide, rfl, rfl, blocked (by decide)⟩

/-- A request is walked, and a caller takes back a prohibition without having made one. -/
def robbedRun : List Event :=
  [.action (.submit .snapshot firstRoot none), .move (.grant 0),
    .move (.enqueue 0), .move (.dequeue .snapshot), .move .launch, .action .exitPruning]

/-- The request is still walked, and pruning is no longer blocked. -/
theorem robbedRun_unblocks : ∃ m, runFrom (inMemory {} none) {} robbedRun = some m ∧
    m.idsAt .running = [0] ∧ m.isPruningBlocked = false :=
  exists_of_runFrom (by decide)

end Manager

end TrieStorage

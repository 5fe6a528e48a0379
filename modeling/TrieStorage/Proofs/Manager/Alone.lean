import TrieStorage.Proofs.Manager.Passage
import TrieStorage.Proofs.Walk.Solo

/-!
# One walk going on alone

The events that concern one walk: its own moves, and what the reader of its sink
does.  While nothing else happens in an open manager, such events make the steps
of a walk on its own, and begin and end it; `step?_turn` says so once for all of
them.  A walk that has not ended its request can move, unless it waits for its
reader.
-/

namespace TrieStorage

/-- Whether an event concerns the walk of a request. -/
def Event.isOf (id : RequestId) : Event → Bool
  | .move (.begin n) | .move (.visit n) | .move (.send n) | .move (.release n)
  | .move (.finish n) | .action (.takeLeaf n) | .action (.dropReader n) => n = id
  | _ => false

/-- Whether an event is a move, and not an action. -/
def Event.isMove : Event → Bool
  | .move _ => true
  | .action _ => false

/-- Whether a walk waits for the reader of its sink to make room. -/
def Walk.Waits (w : Walk) : Prop :=
  ∃ target leaf stack, w.phase = .sending target leaf stack ∧ w.request.sink.any LeafSink.blocks

namespace Manager

/-- The walk of a request, and the vault it works on. -/
def At (m : Manager) (id : RequestId) (s : Walk × Vault) : Prop :=
  m.walk? id = some s.1 ∧ m.vault = s.2

section

variable {m : Manager} {id : RequestId} {w : Walk}

theorem walk?_setWalk (found : m.walk? id = some w) {w' : Walk} (same : w'.request.id = id) :
    (m.setWalk w').walk? id = some w' := by
  have number := (walk?_eq_some found).2
  unfold walk? setWalk at *
  simp only [List.find?_map]
  have test : ((fun x : Walk => decide (x.request.id = id)) ∘
      fun x => if x.request.id = w'.request.id then w' else x) =
      fun x => decide (x.request.id = id) := by
    funext x
    by_cases own : x.request.id = w'.request.id
    · simp [own, same]
    · simp [own]
  rw [test, found]
  simp [number, same]

theorem walk?_mapRequests {change : Request → Request} (hc : ReaderChange change)
    (id : RequestId) : (m.mapRequests change).walk? id =
      (m.walk? id).map fun w => { w with request := change w.request } := by
  unfold walk? mapRequests
  simp only [List.find?_map]
  have test : ((fun x : Walk => decide (x.request.id = id)) ∘
      fun w : Walk => { w with request := change w.request }) =
      fun x => decide (x.request.id = id) := by
    funext x
    simp [hc.id_eq]
  rw [test]

/-! ## What an event does to its walk -/

/-- What an event that concerns a walk does to it. -/
inductive Turn (m : Manager) (id : RequestId) (w : Walk) : Event → Manager → Prop where
  | begin {m' : Manager} (phase : w.phase = .starting) (next : m'.At id (w.start m.vault)) :
      Turn m id w (.move (.begin id)) m'
  | visit {m' : Manager} {target : LayerId} {stack : List NodeHash}
      (phase : w.phase = .visiting target stack)
      (next : m'.At id (w.visit false m.vault target stack)) : Turn m id w (.move (.visit id)) m'
  | send {m' : Manager} {target : LayerId} {leaf : Leaf} {stack : List NodeHash}
      (phase : w.phase = .sending target leaf stack) (free : w.canSend false = true)
      (next : m'.At id (w.send false target leaf stack, m.vault)) :
      Turn m id w (.move (.send id)) m'
  | release {m' : Manager} {outcome : Outcome} (phase : w.phase = .ended outcome)
      (next : m'.At id (w.inPhase (.released outcome), m.vault)) :
      Turn m id w (.move (.release id)) m'
  | finish {m' : Manager} {outcome : Outcome} (phase : w.phase = .released outcome)
      (gone : m'.walk? id = none) (vault : m'.vault = m.vault)
      (finished : m'.finished = m.finished ++ [w.request.finish]) :
      Turn m id w (.move (.finish id)) m'
  | reader {a : Action} {m' : Manager} {change : Request → Request} (hc : ReaderChange change)
      (next : m'.At id ({ w with request := change w.request }, m.vault)) :
      Turn m id w (.action a) m'

theorem move?_turn {m' : Manager} {mv : Move} (opened : m.closed = false)
    (found : m.walk? id = some w) (of : (Event.move mv).isOf id = true)
    (h : m.move? mv = some m') : Turn m id w (.move mv) m' := by
  have number := (walk?_eq_some found).2
  cases mv with
  | begin n =>
    obtain rfl : n = id := by simpa [Event.isOf] using of
    obtain ⟨x, hx, phase, rfl⟩ := begin?_eq_some h
    cases found.symm.trans hx
    exact .begin phase ⟨walk?_setWalk found (by rw [Walk.request_start, number]), rfl⟩
  | visit n =>
    obtain rfl : n = id := by simpa [Event.isOf] using of
    obtain ⟨x, target, stack, hx, phase, rfl⟩ := visit?_eq_some h
    cases found.symm.trans hx
    have same := (Request.id_of_stub (Walk.stub_visit false w m.vault target stack)).trans number
    rw [opened]
    exact .visit phase ⟨walk?_setWalk found same, rfl⟩
  | send n =>
    obtain rfl : n = id := by simpa [Event.isOf] using of
    obtain ⟨x, target, leaf, stack, hx, phase, free, rfl⟩ := send?_eq_some h
    cases found.symm.trans hx
    have same := (Request.id_of_stub (Walk.stub_send false w target leaf stack)).trans number
    rw [opened] at free ⊢
    exact .send phase free ⟨walk?_setWalk found same, rfl⟩
  | release n =>
    obtain rfl : n = id := by simpa [Event.isOf] using of
    obtain ⟨x, outcome, hx, phase, rfl⟩ := release?_eq_some h
    cases found.symm.trans hx
    exact .release phase ⟨walk?_setWalk found number, rfl⟩
  | finish n =>
    obtain rfl : n = id := by simpa [Event.isOf] using of
    obtain ⟨x, outcome, hx, phase, rfl⟩ := finish?_eq_some h
    cases found.symm.trans hx
    refine .finish phase ?_ rfl rfl
    simp [walk?, finishRequest, finishAtOnce, exitPruning]
  | _ => simp [Event.isOf] at of

/-- What the reader of a sink does is a change made by a reader. -/
theorem act_of {a : Action} (of : (Event.action a).isOf id = true) :
    ∃ change, ReaderChange change ∧ ∀ m : Manager, m.act a = m.mapRequests change := by
  cases a with
  | takeLeaf n => exact ⟨_, .ofSink n LeafSink.attached_take, fun _ => rfl⟩
  | dropReader n => exact ⟨_, .ofSink n LeafSink.attached_dropReader, fun _ => rfl⟩
  | _ => simp [Event.isOf] at of

theorem step?_turn {m' : Manager} {e : Event} (opened : m.closed = false)
    (found : m.walk? id = some w) (of : e.isOf id = true) (h : m.step? e = some m') :
    Turn m id w e m' := by
  cases e with
  | move mv => exact move?_turn opened found of h
  | action a =>
    obtain ⟨change, hc, same⟩ := act_of of
    cases Option.some.inj h
    refine .reader hc ⟨?_, ?_⟩
    · rw [same, walk?_mapRequests hc, found]
      rfl
    · rw [same]
      rfl

/-- After the end of a request nothing moves any more. -/
theorem step?_gone {m' : Manager} {e : Event} (gone : m.walk? id = none) (of : e.isOf id = true)
    (h : m.step? e = some m') :
    e.isMove = false ∧ m'.walk? id = none ∧ m'.vault = m.vault ∧
      m'.finished.map Request.id = m.finished.map Request.id := by
  cases e with
  | move mv =>
    cases mv with
    | begin n | visit n | send n | release n | finish n =>
      obtain rfl : n = id := by simpa [Event.isOf] using of
      simp [step?, move?, begin?, visit?, send?, release?, finish?, gone] at h
    | _ => simp [Event.isOf] at of
  | action a =>
    obtain ⟨change, hc, same⟩ := act_of of
    cases Option.some.inj h
    rw [same]
    refine ⟨rfl, ?_, rfl, hc.map_id m.finished⟩
    rw [walk?_mapRequests hc, gone]
    rfl

theorem closed_step? {m' : Manager} {e : Event} (of : e.isOf id = true)
    (h : m.step? e = some m') : m'.closed = m.closed := by
  cases e with
  | move mv => exact (move?_frame h).1
  | action a =>
    obtain ⟨change, -, same⟩ := act_of of
    cases Option.some.inj h
    rw [same]
    rfl

/-- A walk can move, unless it waits for its reader. -/
theorem exists_move (found : m.walk? id = some w) :
    w.Waits ∨ ∃ mv, (Event.move mv).isOf id = true ∧ (m.move? mv).isSome := by
  cases phase : w.phase with
  | starting =>
    have able : (m.begin? id).isSome := by simp [begin?, found, phase]
    exact .inr ⟨.begin id, by simp [Event.isOf], able⟩
  | visiting target stack =>
    have able : (m.visit? id).isSome := by simp [visit?, found, phase]
    exact .inr ⟨.visit id, by simp [Event.isOf], able⟩
  | sending target leaf stack =>
    cases free : w.canSend m.closed with
    | true =>
      have able : (m.send? id).isSome := by simp [send?, found, phase, free]
      exact .inr ⟨.send id, by simp [Event.isOf], able⟩
    | false =>
      refine .inl ⟨target, leaf, stack, phase, ?_⟩
      simp only [Walk.canSend, Bool.or_eq_false_iff] at free
      simpa using free.2
  | ended outcome =>
    have able : (m.release? id).isSome := by simp [release?, found, phase]
    exact .inr ⟨.release id, by simp [Event.isOf], able⟩
  | released outcome =>
    have able : (m.finish? id).isSome := by simp [finish?, found, phase]
    exact .inr ⟨.finish id, by simp [Event.isOf], able⟩

end

end Manager

/-! ## From a walk to its manager -/

/-- A property of walks on their own that their steps keep, and that tells what
is left at the end.  Each move costs `cost` of the number that comes with it. -/
structure Walk.Carried (cost : Nat) (I : Nat → Walk × Vault → Prop) (J : Outcome → Vault → Prop) :
    Prop where
  going : ∀ {n w v}, I n (w, v) → w.phase ≠ .starting ∧ ∀ outcome, w.phase ≠ .released outcome
  visit : ∀ {n w v target stack}, I n (w, v) → w.phase = .visiting target stack →
    ∃ n', n' + cost ≤ n ∧ I n' (w.visit false v target stack)
  send : ∀ {n w v target leaf stack}, I n (w, v) → w.phase = .sending target leaf stack →
    w.canSend false = true → ∃ n', n' + cost ≤ n ∧ I n' (w.send false target leaf stack, v)
  reader : ∀ {n w v change}, I n (w, v) → ReaderChange change →
    I n ({ w with request := change w.request }, v)
  ended : ∀ {n w v outcome}, I n (w, v) → w.phase = .ended outcome → cost + cost ≤ n ∧ J outcome v

namespace Manager

/-- Whether the walk of a request has come to its end. -/
def Over (m : Manager) (id : RequestId) : Prop :=
  ∀ w, m.walk? id = some w → ∃ outcome, w.phase = .ended outcome ∨ w.phase = .released outcome

/-- Where a request is, from the beginning of its walk on. -/
inductive Stage (cost : Nat) (I : Nat → Walk × Vault → Prop) (J : Outcome → Vault → Prop)
    (id : RequestId) : Nat → Manager → Prop where
  | starting {n : Nat} {m : Manager} {w : Walk} (found : m.walk? id = some w)
      (phase : w.phase = .starting)
      (begins : ∀ change, ReaderChange change →
        I n (Walk.start { w with request := change w.request } m.vault)) :
      Stage cost I J id (n + cost) m
  | walking {n : Nat} {m : Manager} {s : Walk × Vault} (holds : I n s) (here : m.At id s) :
      Stage cost I J id n m
  | released {m : Manager} {w : Walk} {outcome : Outcome} (found : m.walk? id = some w)
      (phase : w.phase = .released outcome) (left : J outcome m.vault) : Stage cost I J id cost m
  | gone {m : Manager} (outcome : Outcome) (none : m.walk? id = none)
      (finished : id ∈ m.finished.map Request.id) (left : J outcome m.vault) :
      Stage cost I J id 0 m

namespace Stage

variable {cost n : Nat} {I : Nat → Walk × Vault → Prop} {J : Outcome → Vault → Prop}
  {id : RequestId} {m m' : Manager}

/-- What an event costs. -/
def price (cost : Nat) (e : Event) : Nat := if e.isMove then cost else 0

theorem step (carried : Walk.Carried cost I J) (h : Stage cost I J id n m)
    (opened : m.closed = false) {e : Event} (of : e.isOf id = true) (hs : m.step? e = some m') :
    ∃ n', n' + price cost e ≤ n ∧ Stage cost I J id n' m' := by
  -- at each stage only some turns can come: a beginning before, and a release and
  -- a finish after the walk, with the reader at any time
  cases h with
  | @starting n _ w found phase begins =>
    cases step?_turn opened found of hs with
    | begin _ next => exact ⟨n, Nat.le_refl _, .walking (begins _ .refl) next⟩
    | reader hc next =>
      refine ⟨n + cost, Nat.le_refl _, .starting next.1 phase fun change hc' => ?_⟩
      rw [next.2]
      exact begins _ (hc'.comp hc)
    | visit phase' _ | send phase' _ _ | release phase' _ | finish phase' _ _ _ =>
      rw [phase] at phase'
      cases phase'
  | @walking _ _ s holds here =>
    obtain ⟨w, v⟩ := s
    obtain ⟨found, rfl⟩ := here
    cases step?_turn opened found of hs with
    | begin phase _ => exact absurd phase (carried.going holds).1
    | visit phase next =>
      obtain ⟨n', less, holds⟩ := carried.visit holds phase
      exact ⟨n', less, .walking holds next⟩
    | send phase free next =>
      obtain ⟨n', less, holds⟩ := carried.send holds phase free
      exact ⟨n', less, .walking holds next⟩
    | release phase next =>
      obtain ⟨enough, left⟩ := carried.ended holds phase
      refine ⟨cost, enough, .released next.1 rfl ?_⟩
      rw [next.2]
      exact left
    | finish phase _ _ _ => exact absurd phase ((carried.going holds).2 _)
    | reader hc next => exact ⟨n, Nat.le_refl _, .walking (carried.reader holds hc) next⟩
  | @released _ w outcome found phase left =>
    cases step?_turn opened found of hs with
    | finish phase' none vault finished =>
      refine ⟨0, Nat.le_of_eq (Nat.zero_add _), .gone outcome none ?_ ?_⟩
      · have same := (walk?_eq_some found).2
        rw [finished, List.map_append]
        exact List.mem_append_right _ (List.mem_singleton.2 same.symm)
      · rw [vault]
        exact left
    | reader hc next =>
      refine ⟨cost, Nat.le_refl _, .released next.1 phase ?_⟩
      rw [next.2]
      exact left
    | begin phase' _ | visit phase' _ | send phase' _ _ | release phase' _ =>
      rw [phase] at phase'
      cases phase'
  | gone outcome none finished left =>
    obtain ⟨notMove, none', vault, same⟩ := step?_gone none of hs
    refine ⟨0, ?_, .gone outcome none' ?_ ?_⟩
    · simp [price, notMove]
    · rw [same]
      exact finished
    · rw [vault]
      exact left

/-- After a run in which nothing else happens, the request is at some stage, and
the moves of the run have been paid for. -/
theorem run (carried : Walk.Carried cost I J) (h : Stage cost I J id n m)
    (opened : m.closed = false) {events : List Event} (only : ∀ e ∈ events, e.isOf id = true)
    (ran : m.run? events = some m') :
    ∃ n', n' + cost * events.countP Event.isMove ≤ n ∧ Stage cost I J id n' m' := by
  induction events generalizing m n with
  | nil =>
    cases ran
    exact ⟨n, Nat.le_refl _, h⟩
  | cons e rest ih =>
    obtain ⟨next, first, later⟩ := Option.bind_eq_some_iff.1 ran
    have of := only e List.mem_cons_self
    obtain ⟨n₁, paid, stage⟩ := h.step carried opened of first
    obtain ⟨n₂, paid', stage'⟩ := ih stage ((closed_step? of first).trans opened)
      (fun x hx => only x (List.mem_cons_of_mem e hx)) later
    refine ⟨n₂, ?_, stage'⟩
    rw [List.countP_cons, Nat.mul_add]
    unfold price at paid
    split at paid
    · next move =>
      rw [if_pos move]
      omega
    · next notMove =>
      rw [if_neg notMove]
      omega

/-- What is left by a walk that has come to its end. -/
theorem left (carried : Walk.Carried cost I J) (h : Stage cost I J id n m) {w : Walk}
    {outcome : Outcome} (found : m.walk? id = some w)
    (past : w.phase = .ended outcome ∨ w.phase = .released outcome) : J outcome m.vault := by
  cases h with
  | starting found' phase _ =>
    cases found.symm.trans found'
    rcases past with past | past <;>
    · rw [phase] at past
      cases past
  | @walking _ _ s holds here =>
    obtain ⟨w', v⟩ := s
    obtain ⟨found', rfl⟩ := here
    cases found.symm.trans found'
    rcases past with ended | released
    · exact (carried.ended holds ended).2
    · exact absurd released ((carried.going holds).2 outcome)
  | released found' phase left =>
    cases found.symm.trans found'
    rcases past with past | past
    · rw [phase] at past
      cases past
    · rw [phase] at past
      cases past
      exact left
  | gone _ none _ _ =>
    rw [none] at found
    cases found

theorem exists_left (carried : Walk.Carried cost I J) (h : Stage cost I J id n m)
    (past : m.Over id) : ∃ outcome, J outcome m.vault := by
  cases found : m.walk? id with
  | some w =>
    obtain ⟨outcome, past⟩ := past w found
    exact ⟨outcome, h.left carried found past⟩
  | none =>
    cases h with
    | gone outcome _ _ left => exact ⟨outcome, left⟩
    | starting found' _ _ | released found' _ _ =>
      rw [found] at found'
      cases found'
    | walking _ here =>
      rw [here.1] at found
      cases found

theorem finished_of_none (h : Stage cost I J id n m) (none : m.walk? id = none) :
    id ∈ m.finished.map Request.id := by
  cases h with
  | gone _ _ finished _ => exact finished
  | starting found _ _ | released found _ _ =>
    rw [none] at found
    cases found
  | walking _ here =>
    rw [here.1] at none
    cases none

end Stage

end Manager

end TrieStorage

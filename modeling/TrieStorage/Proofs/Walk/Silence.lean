import TrieStorage.Proofs.Walk.Turns

/-!
# Walks do not hear their readers

What a walk puts, counts and answers has nothing to do with its sink.  `silent` forgets the sink
and, with it, that a leaf is to be sent: a visit does the same to the walk that is left, and
sending, taking and leaving do nothing to it at all.  So a run comes to its visits, and those come
to one end only.  The reader gets the leaves of the nodes that were put, in order, up to where it
left.
-/

namespace TrieStorage

/-- A put of a walk, and how it was answered. -/
structure Put where
  target : LayerId
  copy : Copy
  answer : Except StoreError Unit
  deriving DecidableEq

/-- The storage after some puts, one after the other. -/
def Put.stored (storage : Storage) (puts : List Put) : Storage :=
  puts.foldl (fun storage p => (storage.put p.target p.copy.hash.bytes p.copy.encoded).2) storage

/-- The leaf that a walk has to send after a put. -/
def Put.leaf? (p : Put) : Option Leaf :=
  match p.answer with
  | .ok () => p.copy.node.entry?
  | .error _ => none

/-- The leaves that a walk has to send after some puts. -/
def Put.leaves (puts : List Put) : List Leaf := puts.filterMap Put.leaf?

theorem Put.stored_append (storage : Storage) (front back : List Put) :
    stored storage (front ++ back) = stored (stored storage front) back := List.foldl_append

theorem Put.leaves_append (front back : List Put) :
    leaves (front ++ back) = leaves front ++ leaves back := List.filterMap_append

theorem Put.leaves_toList (p : Option Put) : leaves p.toList = (p.bind Put.leaf?).toList := by
  cases p with
  | none => rfl
  | some p => cases leaf : p.leaf? <;> simp [leaves, leaf]

/-- Where a walk is that sends no leaves. -/
def WalkPhase.silent : WalkPhase → WalkPhase
  | .sending target _ stack => .visiting target stack
  | phase => phase

namespace LeafSink

/-- Nothing has been put in yet. -/
structure Fresh (sink : LeafSink) : Prop where
  attached : sink.attached = true
  unsent : sink.sent = []

/-- The reader has left, and nothing waits for it. -/
structure Left (sink : LeafSink) : Prop where
  gone : sink.reader = .gone
  empty : sink.buffer = []

variable {sink : LeafSink}

theorem Fresh.empty (h : sink.Fresh) : sink.taken = [] ∧ sink.buffer = [] :=
  List.append_eq_nil_iff.1 h.unsent

theorem Fresh.live (h : sink.Fresh) (stays : sink.reader ≠ .gone) : sink.Live :=
  ⟨h.attached, stays, fun _ => h.empty.2⟩

theorem left_dropReader (sink : LeafSink) : sink.dropReader.Left := ⟨rfl, rfl⟩

theorem Left.offer (h : sink.Left) (leaf : Leaf) :
    (sink.offer leaf).Left ∧ (sink.offer leaf).taken = sink.taken := by
  unfold LeafSink.offer
  rw [h.gone]
  exact ⟨⟨rfl, h.empty⟩, rfl⟩

theorem Left.take (h : sink.Left) : sink.take.2.Left ∧ sink.take.2.taken = sink.taken := by
  unfold LeafSink.take
  rw [h.empty]
  exact ⟨h, rfl⟩

end LeafSink

namespace Walk

/-- The walk of a request that was made with this sink, or without. -/
def withSink (w : Walk) (sink : Option LeafSink) : Walk :=
  { w with request := { w.request with sink } }

/-- A walk that nobody listens to, at the same point. -/
def silent (s : Walk × Vault) : Walk × Vault := ((s.1.withSink none).inPhase s.1.phase.silent, s.2)

/-- What a turn puts, if it puts anything. -/
def put? (s : Walk × Vault) (t : Turn) : Option Put :=
  match t, s.1.phase with
  | .visit, .visiting target (hash :: _) =>
    if skips s.2 s.1.request.kind hash then none
    else
      match readNode s.2 hash with
      | .error _ => none
      | .ok (encoded, node) =>
        some ⟨target, ⟨hash, encoded, node⟩, (s.2.putInto target hash.bytes encoded).1⟩
  | _, _ => none

/-- What a run puts, as far as it can go. -/
def puts (s : Walk × Vault) : List Turn → List Put
  | [] => []
  | t :: turns =>
    match turn? s t with
    | none => []
    | some next => (put? s t).toList ++ puts next turns

variable {s s' : Walk × Vault} {t : Turn} {turns before after : List Turn} {target : LayerId}
  {stack : List NodeHash}

/-! ## What is put -/

/-- What is due and can be read is put. -/
theorem put?_of_read {hash : NodeHash} {rest : List NodeHash} {encoded : Bytes} {node : Node}
    {answer : Except StoreError Unit} {v' : Vault}
    (here : s.1.phase = .visiting target (hash :: rest))
    (due : skips s.2 s.1.request.kind hash = false) (read : readNode s.2 hash = .ok (encoded, node))
    (written : s.2.putInto target hash.bytes encoded = (answer, v')) :
    put? s .visit = some ⟨target, ⟨hash, encoded, node⟩, answer⟩ := by
  simp [put?, here, due, read, written]

/-- A visit changes what is stored by its put only. -/
theorem storage_visit_eq (here : s.1.phase = .visiting target stack) :
    (s.1.visit false s.2 target stack).2.storage =
      (put? s .visit).elim s.2.storage fun p =>
        (s.2.storage.put p.target p.copy.hash.bytes p.copy.encoded).2 := by
  have h := visited false s.1 s.2 target stack
  generalize (s.1.visit false s.2 target stack).1 = w', (s.1.visit false s.2 target stack).2 = v'
    at h
  cases h with
  | through => simp [put?, here]
  | cancelled shut => cases shut
  | passed _ skipped => simp [put?, here, skipped]
  | unread _ due read => simp [put?, here, due, read]
  | unwritten _ due read written =>
    rw [put?_of_read here due read written]
    exact (congrArg (fun r => r.2.storage) written).symm
  | copied _ due read written =>
    rw [put?_of_read here due read written, storage_noteCopied]
    exact (congrArg (fun r => r.2.storage) written).symm

/-- After a visit the leaf of what was put is in hand. -/
theorem inHand_visit (here : s.1.phase = .visiting target stack)
    (streams : s.1.request.streams = true) :
    (s.1.visit false s.2 target stack).1.phase.inHand =
      ((put? s .visit).bind Put.leaf?).toList := by
  have h := visited false s.1 s.2 target stack
  generalize (s.1.visit false s.2 target stack).1 = w', (s.1.visit false s.2 target stack).2 = v'
    at h
  cases h with
  | through => simp [put?, here, inPhase, WalkPhase.inHand]
  | cancelled shut => cases shut
  | passed _ skipped => simp [put?, here, skipped, inPhase, WalkPhase.inHand]
  | unread _ due read => simp [put?, here, due, read, fail, inPhase, WalkPhase.inHand]
  | unwritten _ due read written =>
    rw [put?_of_read here due read written]
    rfl
  | copied _ due read written =>
    rw [put?_of_read here due read written]
    exact inHand_afterCopy streams ..

theorem sink_visit (s : Walk × Vault) (target : LayerId) (stack : List NodeHash) :
    (s.1.visit false s.2 target stack).1.request.sink = s.1.request.sink := by
  have h := visited false s.1 s.2 target stack
  generalize (s.1.visit false s.2 target stack).1 = w', (s.1.visit false s.2 target stack).2 = v'
    at h
  cases h <;> rfl

/-- What a run has stored is what its puts have stored. -/
theorem storage_of_puts (ran : run? s turns = some s') :
    s'.2.storage = Put.stored s.2.storage (puts s turns) := by
  induction turns generalizing s with
  | nil =>
    cases ran
    rfl
  | cons t turns ih =>
    obtain ⟨next, first, later⟩ := Option.bind_eq_some_iff.1 ran
    simp only [puts, first, Put.stored_append]
    rw [ih later]
    congr 1
    cases turned first with
    | visit here =>
      rw [storage_visit_eq here]
      cases put? s .visit <;> rfl
    | send | take | leave => rfl

/-! ## Without the sink -/

theorem silent_afterCopy (r : Request) (target : LayerId) (node : Node) (stack : List NodeHash) :
    (afterCopy r target node stack).silent =
      afterCopy { r with sink := none } target node stack := by
  unfold afterCopy
  split
  · split <;> rfl
  · rfl

theorem silent_copy (s : Walk × Vault) (target : LayerId) (hash : NodeHash)
    (stack : List NodeHash) :
    silent (s.1.copy s.2 target hash stack) = (silent s).1.copy s.2 target hash stack := by
  have kind : (silent s).1.request.kind = s.1.request.kind := rfl
  simp only [copy, kind]
  rcases readNode s.2 hash with e | ⟨encoded, node⟩
  · rfl
  · dsimp only
    rcases s.2.putInto target hash.bytes encoded with ⟨e | ⟨⟩, v'⟩
    · rfl
    · simp only [silent, withSink, inPhase, silent_afterCopy]
      cases node.entry? <;> rfl

/-- A visit does the same without the sink. -/
theorem silent_visit (s : Walk × Vault) (target : LayerId) (stack : List NodeHash) :
    silent (s.1.visit false s.2 target stack) = (silent s).1.visit false s.2 target stack := by
  cases stack with
  | nil => rfl
  | cons hash rest =>
    have kind : (silent s).1.request.kind = s.1.request.kind := rfl
    simp only [visit, kind, Bool.false_eq_true, if_false]
    split
    · rfl
    · exact silent_copy s target hash rest

theorem put?_silent (here : s.1.phase = .visiting target stack) :
    put? (silent s) .visit = put? s .visit := by
  unfold put?
  rw [show (silent s).1.phase = .visiting target stack from congrArg WalkPhase.silent here, here]
  rfl

/-- All other turns do nothing to the walk without the sink, and put nothing. -/
theorem silent_of_turned (h : Turned s t s') (other : t ≠ .visit) :
    silent s' = silent s ∧ put? s t = none := by
  cases h with
  | visit => exact absurd rfl other
  | send here =>
    refine ⟨?_, rfl⟩
    unfold silent
    rw [here]
    rfl
  | take | leave => exact ⟨rfl, rfl⟩

theorem silent_start (w : Walk) (v : Vault) (sink : Option LeafSink) :
    silent ((w.withSink sink).start v) = silent ((w.withSink none).start v) := by
  have kind : (w.withSink sink).request.kind = (w.withSink none).request.kind := rfl
  simp only [start, kind]
  split <;> rfl

theorem turn?_silent {next : Walk × Vault} (first : turn? s .visit = some next) :
    turn? (silent s) .visit = some (silent next) ∧ put? (silent s) .visit = put? s .visit := by
  cases turned first with
  | visit here =>
    refine ⟨?_, put?_silent here⟩
    rw [silent_visit]
    simp only [turn?, silent, inPhase, here]
    rfl

/-- A run comes to its visits. -/
theorem run?_silent (ran : run? s turns = some s') :
    run? (silent s) (turns.filter (· = .visit)) = some (silent s') ∧
      puts (silent s) (turns.filter (· = .visit)) = puts s turns := by
  induction turns generalizing s with
  | nil =>
    cases ran
    exact ⟨rfl, rfl⟩
  | cons t turns ih =>
    obtain ⟨next, first, later⟩ := Option.bind_eq_some_iff.1 ran
    obtain ⟨goes, same⟩ := ih later
    by_cases own : t = .visit
    · subst own
      obtain ⟨first', put⟩ := turn?_silent first
      rw [List.filter_cons_of_pos (by rfl)]
      simp only [run?, List.foldlM_cons, puts, first, first', put, same, and_true]
      exact goes
    · obtain ⟨still, nothing⟩ := silent_of_turned (turned first) own
      rw [List.filter_cons_of_neg (by simpa using own), ← still]
      refine ⟨goes, same.trans ?_⟩
      simp [puts, first, nothing]

theorem turn?_visit_of_ended {outcome : Outcome} (ended : s.1.phase = .ended outcome) :
    turn? s .visit = none := by
  simp [turn?, ended]

/-- There is one number of visits after which a walk has ended. -/
theorem visits_unique {n m : Nat} {a b : Walk × Vault} {o o' : Outcome}
    (first : run? s (.replicate n .visit) = some a) (ended : a.1.phase = .ended o)
    (second : run? s (.replicate m .visit) = some b) (ended' : b.1.phase = .ended o') : n = m := by
  induction n generalizing s m with
  | zero =>
    cases first
    cases m with
    | zero => rfl
    | succ m =>
      obtain ⟨next, visited, -⟩ := Option.bind_eq_some_iff.1 second
      rw [turn?_visit_of_ended ended] at visited
      cases visited
  | succ n ih =>
    obtain ⟨next, visited, later⟩ := Option.bind_eq_some_iff.1 first
    cases m with
    | zero =>
      cases second
      rw [turn?_visit_of_ended ended'] at visited
      cases visited
    | succ m =>
      obtain ⟨next', visited', later'⟩ := Option.bind_eq_some_iff.1 second
      cases visited.symm.trans visited'
      rw [ih later later']

/-! ## What the reader gets -/

theorem puts_append {n : Walk × Vault} (ran : run? s before = some n) :
    puts s (before ++ after) = puts s before ++ puts n after := by
  induction before generalizing s with
  | nil =>
    cases ran
    rfl
  | cons t before ih =>
    obtain ⟨next, first, later⟩ := Option.bind_eq_some_iff.1 ran
    simp [puts, first, ih later]

theorem exists_of_run?_append (ran : run? s (before ++ after) = some s') :
    ∃ n, run? s before = some n ∧ run? n after = some s' := by
  rw [run?, List.foldlM_append] at ran
  exact Option.bind_eq_some_iff.1 ran

variable {sink : LeafSink}

/-- Nobody takes leaves from the walk any more. -/
def Unheard (s : Walk × Vault) : Prop := ∀ sink, s.1.request.sink = some sink → sink.Left

theorem unheard_onSink {change : LeafSink → LeafSink}
    (left : ∀ sink, s.1.request.sink = some sink →
      (change sink).Left ∧ (change sink).taken = sink.taken) (phase : WalkPhase) (v : Vault) :
    Unheard ({ request := s.1.request.onSink change, phase }, v) ∧
      (s.1.request.onSink change).received = s.1.request.received := by
  unfold Unheard Request.received Request.onSink
  cases found : s.1.request.sink with
  | none =>
    refine ⟨fun sink none_ => ?_, rfl⟩
    cases none_
  | some sink =>
    refine ⟨fun sink' same => ?_, (left sink found).2⟩
    cases same
    exact (left sink found).1

theorem Turned.unheard (h : Turned s t s') (left : Unheard s) :
    Unheard s' ∧ s'.1.request.received = s.1.request.received := by
  cases h with
  | visit =>
    unfold Unheard Request.received
    rw [sink_visit]
    exact ⟨left, rfl⟩
  | send => exact unheard_onSink (fun sink found => (left sink found).offer _) _ _
  | take => exact unheard_onSink (fun sink found => (left sink found).take) _ _
  | leave => exact unheard_onSink (fun sink _ => ⟨sink.left_dropReader, rfl⟩) _ _

/-- A reader that has left gets nothing more. -/
theorem received_of_unheard (ran : run? s turns = some s') (left : Unheard s) :
    s'.1.request.received = s.1.request.received := by
  induction turns generalizing s with
  | nil =>
    cases ran
    rfl
  | cons t turns ih =>
    obtain ⟨next, first, later⟩ := Option.bind_eq_some_iff.1 ran
    obtain ⟨left', same⟩ := (turned first).unheard left
    exact (ih later left').trans same

/-- A reader that leaves has what it will ever have. -/
theorem received_of_leave (ran : run? s (before ++ .leave :: after) = some s') :
    ∃ n, run? s before = some n ∧ s'.1.request.received = n.1.request.received := by
  obtain ⟨n, early, late⟩ := exists_of_run?_append ran
  have dropped := unheard_onSink (s := n) (fun sink _ => ⟨sink.left_dropReader, rfl⟩) n.1.phase n.2
  have later : run? ({ n.1 with request := n.1.request.onSink LeafSink.dropReader }, n.2) after =
    some s' := late
  exact ⟨n, early, (received_of_unheard later dropped.1).trans dropped.2⟩

/-- As long as the reader stays, it has or will have the leaves of what was put. -/
theorem Turned.live (h : Turned s t s') (stays : t ≠ .leave)
    (found : s.1.request.sink = some sink) (live : sink.Live) :
    ∃ sink', s'.1.request.sink = some sink' ∧ sink'.Live ∧
      sink'.sent ++ s'.1.phase.inHand =
        sink.sent ++ s.1.phase.inHand ++ ((put? s t).bind Put.leaf?).toList := by
  cases h with
  | visit here =>
    refine ⟨sink, (sink_visit ..).trans found, live, ?_⟩
    have streams : s.1.request.streams = true := by simp [Request.streams, found, live.attached]
    rw [inHand_visit here streams, here]
    simp [WalkPhase.inHand]
  | send here =>
    obtain ⟨still, more⟩ := live.offer _
    refine ⟨_, Request.sink_onSink found _, still, ?_⟩
    rw [more, here]
    rfl
  | take =>
    obtain ⟨still, same⟩ := live.take
    refine ⟨_, Request.sink_onSink found _, still, ?_⟩
    rw [same]
    simp [put?]
  | leave => exact absurd rfl stays

theorem sent_of_run (ran : run? s turns = some s') (stays : .leave ∉ turns)
    (found : s.1.request.sink = some sink) (live : sink.Live) :
    ∃ sink', s'.1.request.sink = some sink' ∧
      sink'.sent ++ s'.1.phase.inHand =
        sink.sent ++ s.1.phase.inHand ++ Put.leaves (puts s turns) := by
  induction turns generalizing s sink with
  | nil =>
    cases ran
    exact ⟨sink, found, by simp [puts, Put.leaves]⟩
  | cons t turns ih =>
    obtain ⟨next, first, later⟩ := Option.bind_eq_some_iff.1 ran
    obtain ⟨sink', found', live', sent⟩ := (turned first).live
      (fun leaves => stays (leaves ▸ List.mem_cons_self)) found live
    obtain ⟨sink'', found'', all⟩ := ih later
      (fun mem => stays (List.mem_cons_of_mem t mem)) found' live'
    refine ⟨sink'', found'', all.trans ?_⟩
    rw [sent, puts, first, Put.leaves_append, Put.leaves_toList, ← List.append_assoc]

/-- What the reader of a sink gets of the leaves of a run. -/
structure Hears (start : Walk × Vault) (turns : List Turn) (s : Walk × Vault)
    (leaves : List Leaf) : Prop where
  /-- It gets them in order, up to some point. -/
  front : s.1.request.received <+: leaves
  /-- If it stays, it has all of them or finds the others in the sink. -/
  stayed : ∀ sink, start.1.request.sink = some sink → sink.reader ≠ .gone → .leave ∉ turns →
    ∃ sink', s.1.request.sink = some sink' ∧ sink'.sent = leaves
  /-- If it leaves, what it has by then is what it will ever have: the leaves of what was put by
  then but for those that are in the sink, and the one that is to be sent. -/
  left : ∀ sink, start.1.request.sink = some sink → sink.reader ≠ .gone →
    ∀ before after, turns = before ++ .leave :: after → .leave ∉ before →
      ∃ n sink', run? start before = some n ∧ n.1.request.sink = some sink' ∧
        sink'.sent ++ n.1.phase.inHand = Put.leaves (puts start before) ∧
        s.1.request.received = sink'.taken
  absent : ∀ sink, start.1.request.sink = some sink → sink.reader = .gone →
    s.1.request.received = []

theorem received_of_sink (found : s.1.request.sink = some sink) :
    s.1.request.received = sink.taken := by
  rw [Request.received, found]
  rfl

/-- As long as the reader of a new sink stays, what it has are the first of the leaves, and then
come those that are in the sink, and the one that is to be sent. -/
theorem sent_of_stay (ran : run? s turns = some s') (stays : .leave ∉ turns)
    (found : s.1.request.sink = some sink) (fresh : sink.Fresh) (here : sink.reader ≠ .gone)
    (idle : s.1.phase.inHand = []) :
    ∃ sink', s'.1.request.sink = some sink' ∧
      sink'.sent ++ s'.1.phase.inHand = Put.leaves (puts s turns) ∧
      s'.1.request.received = sink'.taken := by
  obtain ⟨sink', found', sent⟩ := sent_of_run ran stays found (fresh.live here)
  rw [idle, fresh.unsent] at sent
  exact ⟨sink', found', sent, received_of_sink found'⟩

theorem Hears.of_run {outcome : Outcome}
    (fresh : ∀ sink, s.1.request.sink = some sink → sink.Fresh) (idle : s.1.phase.inHand = [])
    (ran : run? s turns = some s') (ended : s'.1.phase = .ended outcome) :
    Hears s turns s' (Put.leaves (puts s turns)) := by
  have absent (gone : ∀ sink, s.1.request.sink = some sink → sink.reader = .gone) :
      s'.1.request.received = [] := by
    rw [received_of_unheard ran fun sink found => ⟨gone sink found, (fresh sink found).empty.2⟩]
    cases found : s.1.request.sink with
    | none => rw [Request.received, found]; rfl
    | some sink => rw [received_of_sink found, (fresh sink found).empty.1]
  have front {turns : List Turn} {n : Walk × Vault} {sink : LeafSink}
      (early : run? s turns = some n) (stays : .leave ∉ turns)
      (found : s.1.request.sink = some sink) (here : sink.reader ≠ .gone) :
      n.1.request.received <+: Put.leaves (puts s turns) := by
    obtain ⟨sink', -, sent, same⟩ := sent_of_stay early stays found (fresh sink found) here idle
    rw [same, ← sent, LeafSink.sent, List.append_assoc]
    exact List.prefix_append ..
  constructor
  case front =>
    cases found : s.1.request.sink with
    | none =>
      rw [absent fun sink found' => by cases found.symm.trans found']
      exact List.nil_prefix
    | some sink =>
      by_cases gone : sink.reader = .gone
      · rw [absent fun sink' found' => by cases found.symm.trans found'; exact gone]
        exact List.nil_prefix
      · by_cases left : .leave ∈ turns
        · obtain ⟨before, after, rfl, stays⟩ := List.eq_append_cons_of_mem left
          obtain ⟨n, early, same⟩ := received_of_leave ran
          rw [same, puts_append early, Put.leaves_append]
          exact (front early stays found gone).trans (List.prefix_append ..)
        · exact front ran left found gone
  case stayed =>
    intro sink found here stays
    obtain ⟨sink', found', sent, -⟩ := sent_of_stay ran stays found (fresh sink found) here idle
    rw [ended] at sent
    exact ⟨sink', found', (List.append_nil _).symm.trans sent⟩
  case left =>
    rintro sink found here before after rfl stays
    obtain ⟨n, early, same⟩ := received_of_leave ran
    obtain ⟨sink', found', sent, taken⟩ :=
      sent_of_stay early stays found (fresh sink found) here idle
    exact ⟨n, sink', early, found', sent, same.trans taken⟩
  case absent =>
    intro sink found gone
    refine absent fun sink' found' => ?_
    cases found.symm.trans found'
    exact gone

theorem inHand_start (w : Walk) (v : Vault) : (w.start v).1.phase.inHand = [] := by
  obtain ⟨-, ⟨e, -, h⟩ | ⟨-, h⟩ | ⟨target, -, h⟩⟩ := start_cases w v <;> rw [h] <;> rfl

/-- Two runs of one walk that differ only in the sink, in who reads it and how, put the same in the
same order with the same answers, and store nothing else.  So they leave the same vault, hashes that
are pending included; they count the same and end in the same way.  What each of the readers gets
are the leaves of what was put, up to where it left. -/
theorem same_puts_whatever_sink {w : Walk} {v : Vault} {sink₁ sink₂ : Option LeafSink}
    {turns₁ turns₂ : List Turn} {s₁ s₂ : Walk × Vault} {outcome₁ outcome₂ : Outcome}
    (fresh₁ : ∀ sink ∈ sink₁, sink.Fresh) (fresh₂ : ∀ sink ∈ sink₂, sink.Fresh)
    (ran₁ : run? ((w.withSink sink₁).start v) turns₁ = some s₁)
    (ran₂ : run? ((w.withSink sink₂).start v) turns₂ = some s₂)
    (ended₁ : s₁.1.phase = .ended outcome₁) (ended₂ : s₂.1.phase = .ended outcome₂) :
    puts ((w.withSink sink₁).start v) turns₁ = puts ((w.withSink sink₂).start v) turns₂ ∧
      s₁.2.storage = Put.stored ((w.withSink sink₁).start v).2.storage
        (puts ((w.withSink sink₁).start v) turns₁) ∧
      s₁.2 = s₂.2 ∧ s₁.1.request.stats = s₂.1.request.stats ∧ outcome₁ = outcome₂ ∧
      Hears ((w.withSink sink₁).start v) turns₁ s₁
        (Put.leaves (puts ((w.withSink sink₁).start v) turns₁)) ∧
      Hears ((w.withSink sink₂).start v) turns₂ s₂
        (Put.leaves (puts ((w.withSink sink₁).start v) turns₁)) := by
  obtain ⟨visits₁, puts₁⟩ := run?_silent ran₁
  obtain ⟨visits₂, puts₂⟩ := run?_silent ran₂
  rw [silent_start, List.filter_eq] at visits₁ puts₁ visits₂ puts₂
  have silent₁ : (silent s₁).1.phase = .ended outcome₁ := congrArg WalkPhase.silent ended₁
  have silent₂ : (silent s₂).1.phase = .ended outcome₂ := congrArg WalkPhase.silent ended₂
  have many := visits_unique visits₁ silent₁ visits₂ silent₂
  rw [← many] at visits₂ puts₂
  obtain ⟨walk, vault⟩ := Prod.mk.inj (Option.some.inj (visits₁.symm.trans visits₂))
  have alike := puts₁.symm.trans puts₂
  have outcome := silent₁.symm.trans ((congrArg Walk.phase walk).trans silent₂)
  refine ⟨alike, storage_of_puts ran₁, vault, congrArg (fun w => w.request.stats) walk,
    WalkPhase.ended.inj outcome, .of_run ?_ (inHand_start ..) ran₁ ended₁, ?_⟩
  · rw [request_start]
    exact fresh₁
  · rw [alike]
    refine .of_run ?_ (inHand_start ..) ran₂ ended₂
    rw [request_start]
    exact fresh₂

/-- A checkpoint of the fork that begins with a sink that has room for one leaf. -/
def forkRead (reader : LeafReader) : Walk × Vault :=
  ((forkWalk .checkpoint).withSink (some { capacity := 1, reader })).start forkVault

/-- The reader leaves while the leaf is in the sink. -/
def leavingTurns : List Turn := [.visit, .visit, .send, .leave, .visit, .visit]

/-- The reader has taken the leaf at once. -/
def stayingTurns : List Turn := [.visit, .visit, .send, .visit, .visit]

/-- The root and the leaf, copied into the checkpoint store. -/
def forkPuts : List Put :=
  [⟨.checkpoints, ⟨forkHash, forkRoot.encode, forkRoot⟩, .ok ()⟩,
    ⟨.checkpoints, ⟨leafHash, sampleLeaf.encode, sampleLeaf⟩, .ok ()⟩]

theorem fresh_roomForOne (reader : LeafReader) (sink : LeafSink)
    (found : sink ∈ some ({ capacity := 1, reader } : LeafSink)) : sink.Fresh := by
  cases found
  exact ⟨rfl, rfl⟩

/-- One reader gets the leaf and the other does not, and both checkpoints copy the same. -/
theorem forkRead_same_puts : ∃ s₁ s₂, run? (forkRead .waiting) leavingTurns = some s₁ ∧
    run? (forkRead .collecting) stayingTurns = some s₂ ∧
    s₁.1.request.received = [] ∧ s₂.1.request.received = [⟨[1], [2]⟩] ∧
    puts (forkRead .waiting) leavingTurns = forkPuts ∧
    puts (forkRead .collecting) stayingTurns = forkPuts ∧ s₁.2 = s₂.2 := by
  have evaluated : (run? (forkRead .waiting) leavingTurns).any (fun s =>
        s.1.phase = .ended .complete ∧ s.1.request.received = []) = true ∧
      (run? (forkRead .collecting) stayingTurns).any (fun s =>
        s.1.phase = .ended .complete ∧ s.1.request.received = [⟨[1], [2]⟩]) = true ∧
      puts (forkRead .waiting) leavingTurns = forkPuts := by decide +kernel
  obtain ⟨left, stayed, written⟩ := evaluated
  obtain ⟨s₁, ran₁, ended₁, received₁⟩ := exists_of_run? left
  obtain ⟨s₂, ran₂, ended₂, received₂⟩ := exists_of_run? stayed
  obtain ⟨alike, -, vault, -⟩ := same_puts_whatever_sink (fresh_roomForOne .waiting)
    (fresh_roomForOne .collecting) ran₁ ran₂ ended₁ ended₂
  exact ⟨s₁, s₂, ran₁, ran₂, received₁, received₂, written, alike.symm.trans written, vault⟩

end Walk

end TrieStorage

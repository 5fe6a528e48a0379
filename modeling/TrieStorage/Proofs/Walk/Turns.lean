import TrieStorage.Proofs.Walk.Copies
import TrieStorage.Proofs.Walk.Snapshot

/-!
# The turns of a walk and its reader

A walk that is not cancelled visits and sends, and in between the reader of its sink
takes leaves or leaves for good, in any order.  Whatever the order of the turns, what
the walk has done is what copying the visited hashes one after the other comes to:
`Mirrors` compares the two in everything that can be seen of them.
-/

namespace TrieStorage

namespace LeafSink

/-- Leaves that are put in reach the reader in the order in which they were put in. -/
structure Live (sink : LeafSink) : Prop where
  attached : sink.attached = true
  stays : sink.reader ≠ .gone
  atOnce : sink.reader = .collecting → sink.buffer = []

/-- The leaves that were put in while the reader was there, oldest first. -/
def sent (sink : LeafSink) : List Leaf := sink.taken ++ sink.buffer

variable {sink : LeafSink}

theorem reader_offer (sink : LeafSink) (leaf : Leaf) : (sink.offer leaf).reader = sink.reader := by
  unfold offer
  split <;> rfl

theorem Live.offer (h : sink.Live) (leaf : Leaf) :
    (sink.offer leaf).Live ∧ (sink.offer leaf).sent = sink.sent ++ [leaf] := by
  unfold LeafSink.offer
  split
  · next collecting =>
    have empty := h.atOnce collecting
    exact ⟨⟨h.attached, h.stays, h.atOnce⟩, by simp [sent, empty]⟩
  · next waiting =>
    refine ⟨⟨h.attached, h.stays, fun collecting => ?_⟩, by simp [sent]⟩
    cases waiting.symm.trans collecting
  · next gone => exact absurd gone h.stays

theorem reader_take (sink : LeafSink) : sink.take.2.reader = sink.reader := by
  unfold take
  split <;> rfl

theorem Live.take (h : sink.Live) : sink.take.2.Live ∧ sink.take.2.sent = sink.sent := by
  unfold LeafSink.take
  split
  · exact ⟨h, rfl⟩
  · next leaf rest full =>
    refine ⟨⟨h.attached, h.stays, fun collecting => ?_⟩, by simp [sent, full]⟩
    rw [h.atOnce collecting] at full
    cases full

end LeafSink

theorem Request.sink_onSink {r : Request} {sink : LeafSink} (found : r.sink = some sink)
    (change : LeafSink → LeafSink) : (r.onSink change).sink = some (change sink) :=
  congrArg (Option.map change) found

namespace WalkPhase

/-- What a walk has to tell so far: nothing has stopped it, or what has. -/
def answer? : WalkPhase → Option (Except ManagerError Unit)
  | .visiting _ _ | .sending _ _ _ | .ended .complete => some (.ok ())
  | .ended (.failed cause) => some (.error cause)
  | _ => none

/-- The leaf that is to be sent next. -/
def inHand : WalkPhase → List Leaf
  | .sending _ leaf _ => [leaf]
  | _ => []

end WalkPhase

namespace Walk

/-! ## Turns -/

/-- Who has the turn: the walk, to visit or to send, or its reader, to take a leaf or
to leave. -/
inductive Turn where
  | visit
  | send
  | take
  | leave
  deriving DecidableEq, Repr

/-- Whether it is the walk's own turn. -/
def Turn.isOwn : Turn → Bool
  | .visit | .send => true
  | .take | .leave => false

def turn? (s : Walk × Vault) : Turn → Option (Walk × Vault)
  | .visit =>
    match s.1.phase with
    | .visiting target stack => some (s.1.visit false s.2 target stack)
    | _ => none
  | .send =>
    match s.1.phase with
    | .sending target leaf stack =>
      if s.1.canSend false then some (s.1.send false target leaf stack, s.2) else none
    | _ => none
  | .take => some ({ s.1 with request := s.1.request.onSink fun sink => sink.take.2 }, s.2)
  | .leave => some ({ s.1 with request := s.1.request.onSink LeafSink.dropReader }, s.2)

def run? (s : Walk × Vault) (turns : List Turn) : Option (Walk × Vault) := turns.foldlM turn? s

theorem exists_of_run? {s : Walk × Vault} {turns : List Turn} {P : Walk × Vault → Prop}
    [DecidablePred P] (h : (run? s turns).any (fun s => P s) = true) :
    ∃ s', run? s turns = some s' ∧ P s' := by
  simpa [Option.any_eq_true] using h

/-- What a turn can do. -/
inductive Turned (s : Walk × Vault) : Turn → Walk × Vault → Prop where
  | visit {target : LayerId} {stack : List NodeHash} (phase : s.1.phase = .visiting target stack) :
      Turned s .visit (s.1.visit false s.2 target stack)
  | send {target : LayerId} {leaf : Leaf} {stack : List NodeHash}
      (phase : s.1.phase = .sending target leaf stack) (free : s.1.canSend false = true) :
      Turned s .send (s.1.send false target leaf stack, s.2)
  | take : Turned s .take ({ s.1 with request := s.1.request.onSink fun sink => sink.take.2 }, s.2)
  | leave : Turned s .leave ({ s.1 with request := s.1.request.onSink LeafSink.dropReader }, s.2)

theorem turned {s s' : Walk × Vault} {t : Turn} (h : turn? s t = some s') : Turned s t s' := by
  cases t with
  | visit =>
    cases phase : s.1.phase with
    | visiting target stack =>
      simp only [turn?, phase, Option.some.injEq] at h
      rw [← h]
      exact .visit phase
    | _ => simp [turn?, phase] at h
  | send =>
    cases phase : s.1.phase with
    | sending target leaf stack =>
      simp only [turn?, phase, Option.ite_none_right_eq_some, Option.some.injEq] at h
      rw [← h.2]
      exact .send phase h.1
    | _ => simp [turn?, phase] at h
  | take =>
    cases h
    exact .take
  | leave =>
    cases h
    exact .leave

/-- Turns are steps. -/
theorem Turned.step {s s' : Walk × Vault} {t : Turn} (h : Turned s t s') : Step s s' := by
  cases h with
  | visit phase => exact .visit phase
  | send phase free => exact .send phase free
  | take =>
    have step := Step.reader (w := s.1) (v := s.2)
      (ReaderChange.ofSink s.1.request.id LeafSink.attached_take)
    simpa using step
  | leave =>
    have step := Step.reader (w := s.1) (v := s.2)
      (ReaderChange.ofSink s.1.request.id LeafSink.attached_dropReader)
    simpa using step

/-- What the turns of a walk keep, step by step with a bound on the visits to come, a
run keeps; and the run has no more turns of the walk than the bound allows. -/
theorem run?_keeps {I : Nat → Walk × Vault → Prop}
    (keeps : ∀ n s t s', I n s → Turned s t s' →
      ∃ n', I n' s' ∧ movesLeft n' s'.1.phase + (if t.isOwn then 1 else 0) ≤ movesLeft n s.1.phase)
    {n : Nat} {s s' : Walk × Vault} {turns : List Turn} (h : I n s) (ran : run? s turns = some s') :
    ∃ n', I n' s' ∧ movesLeft n' s'.1.phase + turns.countP Turn.isOwn ≤ movesLeft n s.1.phase := by
  induction turns generalizing n s with
  | nil =>
    cases ran
    exact ⟨n, h, Nat.le_refl _⟩
  | cons t turns ih =>
    obtain ⟨next, first, later⟩ := Option.bind_eq_some_iff.1 ran
    obtain ⟨n₁, h₁, less⟩ := keeps n s t next h (turned first)
    obtain ⟨n₂, h₂, less'⟩ := ih h₁ later
    refine ⟨n₂, h₂, ?_⟩
    rw [List.countP_cons]
    omega

/-- A walk goes on until it has ended, unless it waits for its reader to take a leaf. -/
def GoesOn (s : Walk × Vault) : Prop :=
  (∃ outcome, s.1.phase = .ended outcome) ∨ (∃ t, t.isOwn = true ∧ (turn? s t).isSome = true) ∨
    s.1.request.sink.any LeafSink.blocks = true

/-! ## What a walk has done -/

theorem answer?_afterCopy (r : Request) (target : LayerId) (node : Node) (stack : List NodeHash) :
    (afterCopy r target node stack).answer? = some (.ok ()) := by
  unfold afterCopy
  split
  · split <;> rfl
  · rfl

theorem inHand_afterCopy {r : Request} (streams : r.streams = true) (target : LayerId) (node : Node)
    (stack : List NodeHash) : (afterCopy r target node stack).inHand = node.entry?.toList := by
  unfold afterCopy
  split
  · next leaf entry => simp [streams, entry, WalkPhase.inHand]
  · next inner =>
    rw [inner]
    rfl

/-- What a walk has done since it started is what copying some hashes comes to: it has
been stopped by the same thing, the same is stored, the copies have been counted, and
as long as the reader stays it has their leaves, or will have them. -/
structure Mirrors (start s : Walk × Vault) (r : Transfer) : Prop where
  answer : s.1.phase.answer? = some r.answer
  vault : s.2 = r.vault
  stats : s.1.request.stats = start.1.request.stats.plus r.copies
  stream : ∀ sink, start.1.request.sink = some sink → sink.Live →
    ∃ sink', s.1.request.sink = some sink' ∧ (sink'.reader ≠ .gone →
      sink'.Live ∧ sink'.sent ++ s.1.phase.inHand = sink.sent ++ Copy.leaves r.copies)

namespace Mirrors

variable {start s : Walk × Vault} {r : Transfer} {target : LayerId} {stack : List NodeHash}

theorem begin (kind : RequestKind) (phase : start.1.phase = .visiting target stack) :
    Mirrors start start (start.2.transfer kind target []) := by
  refine ⟨by rw [phase]; rfl, rfl, (Statistics.plus_nil _).symm, fun sink found live => ?_⟩
  refine ⟨sink, found, fun _ => ⟨live, ?_⟩⟩
  rw [phase]
  rfl

theorem ok (h : Mirrors start s r) (here : AtStack target stack s.1.phase) : r.answer = .ok () := by
  have answer := h.answer
  cases phase : s.1.phase with
  | visiting _ _ | sending _ _ _ =>
    rw [phase] at answer
    exact (Option.some.inj answer).symm
  | _ =>
    rw [phase] at here
    cases here

/-- A walk that has done something has started, and its slot has not been given back. -/
theorem goesOn (h : Mirrors start s r) : GoesOn s := by
  have answer := h.answer
  cases phase : s.1.phase with
  | visiting target stack => exact .inr (.inl ⟨.visit, rfl, by simp [turn?, phase]⟩)
  | sending target leaf stack =>
    cases free : s.1.canSend false with
    | true => exact .inr (.inl ⟨.send, rfl, by simp [turn?, phase, free]⟩)
    | false => exact .inr (.inr (by simpa [canSend] using free))
  | ended outcome => exact .inl ⟨outcome, phase⟩
  | _ =>
    rw [phase] at answer
    cases answer

theorem two_le_movesLeft (h : Mirrors start s r) (visits : Nat) :
    2 ≤ movesLeft visits s.1.phase := by
  have answer := h.answer
  cases phase : s.1.phase with
  | released outcome =>
    rw [phase] at answer
    cases answer
  | _ => simp [movesLeft]

/-- A visit that copies nothing. -/
theorem inPhase (h : Mirrors start s r) (here : s.1.phase = .visiting target stack)
    {phase : WalkPhase} (answer : phase.answer? = some (.ok ())) (empty : phase.inHand = []) :
    Mirrors start (s.1.inPhase phase, s.2) r := by
  refine ⟨answer.trans (congrArg some (h.ok (.of_visiting here)).symm), h.vault, h.stats, ?_⟩
  intro sink found live
  obtain ⟨sink', found', streams⟩ := h.stream sink found live
  rw [here] at streams
  refine ⟨sink', found', fun stays => ?_⟩
  rw [show (s.1.inPhase phase).phase.inHand = [] from empty]
  exact streams stays

/-- A visit of a hash that is not passed over is as copying one more hash. -/
theorem visit {kind : RequestKind} {hash : NodeHash} {rest done : List NodeHash}
    (kind_ : s.1.request.kind = kind) (here : s.1.phase = .visiting target (hash :: rest))
    (due : skips s.2 s.1.request.kind hash = false)
    (h : Mirrors start s (start.2.transfer kind target done)) :
    Mirrors start (s.1.visit false s.2 target (hash :: rest))
      (start.2.transfer kind target (done ++ [hash])) := by
  subst kind_
  have ok := h.ok (.of_visiting here)
  have stream := h.stream
  rw [here] at stream
  have visited := visited false s.1 s.2 target (hash :: rest)
  generalize s.1.visit false s.2 target (hash :: rest) = next at visited ⊢
  obtain ⟨w', v'⟩ := next
  simp only [h.vault] at visited due
  cases visited with
  | cancelled shut => cases shut
  | passed _ skipped =>
    rw [due] at skipped
    cases skipped
  | unread _ _ read =>
    rw [Vault.transfer_concat_unread ok read]
    exact ⟨rfl, rfl, h.stats, stream⟩
  | unwritten _ _ read written =>
    rw [Vault.transfer_concat_unwritten ok read written]
    exact ⟨rfl, rfl, h.stats, stream⟩
  | @copied _ _ encoded node v₁ _ _ read written =>
    rw [Vault.transfer_concat_copied ok read written]
    refine ⟨answer?_afterCopy .., rfl, Request.stats_countNode h.stats ⟨hash, encoded, node⟩, ?_⟩
    intro sink found live
    obtain ⟨sink', found', streams⟩ := stream sink found live
    refine ⟨sink', found', fun stays => ?_⟩
    obtain ⟨live', same⟩ := streams stays
    have streaming : s.1.request.streams = true := by
      simp [Request.streams, found', live'.attached]
    refine ⟨live', ?_⟩
    rw [inHand_afterCopy streaming, Copy.leaves_concat, ← List.append_assoc, ← same]
    simp [WalkPhase.inHand]

/-- Sending puts the leaf in hand behind those that were sent. -/
theorem send {leaf : Leaf} (h : Mirrors start s r)
    (here : s.1.phase = .sending target leaf stack) :
    Mirrors start (s.1.send false target leaf stack, s.2) r := by
  refine ⟨congrArg some (h.ok (.of_sending here)).symm, h.vault, h.stats, ?_⟩
  intro sink found live
  obtain ⟨sink', found', streams⟩ := h.stream sink found live
  rw [here] at streams
  refine ⟨sink'.offer leaf, Request.sink_onSink found' _, ?_⟩
  rw [LeafSink.reader_offer]
  intro stays
  obtain ⟨live', same⟩ := streams stays
  obtain ⟨still, more⟩ := live'.offer leaf
  refine ⟨still, ?_⟩
  rw [more]
  exact (List.append_nil _).trans same

/-- Taking a leaf does not change what was sent. -/
theorem take (h : Mirrors start s r) :
    Mirrors start ({ s.1 with request := s.1.request.onSink fun sink => sink.take.2 }, s.2) r := by
  refine ⟨h.answer, h.vault, h.stats, fun sink found live => ?_⟩
  obtain ⟨sink', found', streams⟩ := h.stream sink found live
  refine ⟨sink'.take.2, Request.sink_onSink found' _, ?_⟩
  rw [LeafSink.reader_take]
  intro stays
  obtain ⟨live', same⟩ := streams stays
  obtain ⟨still, equal⟩ := live'.take
  refine ⟨still, ?_⟩
  rw [equal]
  exact same

theorem leave (h : Mirrors start s r) :
    Mirrors start ({ s.1 with request := s.1.request.onSink LeafSink.dropReader }, s.2) r := by
  refine ⟨h.answer, h.vault, h.stats, fun sink found live => ?_⟩
  obtain ⟨sink', found', -⟩ := h.stream sink found live
  exact ⟨sink'.dropReader, Request.sink_onSink found' _, fun stays => absurd rfl stays⟩

end Mirrors

/-! ### A root above one leaf twice -/

def forkRoot : Node := .branch [leafHash, leafHash]

def forkHash : NodeHash := Scheme.standard.address forkRoot.encode

/-- Both nodes are in the main store, and pending. -/
def forkVault : Vault :=
  { storage :=
      { disk := {}
        main :=
          { name := .main
            store := .memory { table :=
              ⟨[(forkHash.bytes, forkRoot.encode), (leafHash.bytes, sampleLeaf.encode)]⟩ } }
        db := { name := .db, store := .memory {} }
        checkpoints := { name := .checkpoints, store := .memory {} } }
    tracker := { budget := 0, entries := [⟨forkHash, [forkHash, leafHash]⟩] } }

/-- A walk whose sink has room for one leaf. -/
def forkWalk (kind : RequestKind) : Walk :=
  { request := { id := 0, kind, root := forkHash
                 sink := some { capacity := 1, reader := .waiting } }
    phase := .visiting .checkpoints [forkHash] }

/-- The turns of a snapshot, which comes to the leaf twice, and of a checkpoint. -/
def forkTurns : RequestKind → List Turn
  | .snapshot => [.visit, .visit, .send, .take, .visit, .send, .visit]
  | .checkpoint => [.visit, .visit, .send, .take, .visit, .visit]

-- one evaluation for all of these, so that the digests are computed only once
theorem fork_facts :
    readNode forkVault forkHash = .ok (forkRoot.encode, forkRoot) ∧
    readNode forkVault leafHash = .ok (sampleLeaf.encode, sampleLeaf) ∧
    forkVault.tracker.shouldCommit forkHash = true ∧
    forkVault.tracker.shouldCommit leafHash = true ∧
    (run? (forkWalk .snapshot, forkVault) (forkTurns .snapshot)).any (fun s =>
      s.1.phase = .ended .complete ∧ s.1.request.received = [⟨[1], [2]⟩]) = true ∧
    (run? (forkWalk .checkpoint, forkVault) (forkTurns .checkpoint)).any (fun s =>
      s.1.phase = .ended .complete ∧ s.1.request.received = [⟨[1], [2]⟩]) = true := by
  decide +kernel

end Walk

end TrieStorage

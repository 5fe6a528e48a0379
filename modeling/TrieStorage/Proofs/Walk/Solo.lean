import Mathlib.Logic.Relation
import TrieStorage.Proofs.Manager.Actions
import TrieStorage.Proofs.Storage.Copying

/-!
# A walk on its own

The steps of a walk that has its vault to itself and is not cancelled, with the
reader of its sink taking leaves, or leaving, at any time.  Such a walk reads
the same from its first step to its last, whatever it copies in between.
-/

namespace TrieStorage

namespace Walk

/-- A step of a walk on its own, or of the reader of its sink. -/
inductive Step : Walk × Vault → Walk × Vault → Prop where
  | visit {w : Walk} {v : Vault} {target : LayerId} {stack : List NodeHash}
      (phase : w.phase = .visiting target stack) : Step (w, v) (w.visit false v target stack)
  | send {w : Walk} {v : Vault} {target : LayerId} {leaf : Leaf} {stack : List NodeHash}
      (phase : w.phase = .sending target leaf stack) (free : w.canSend false = true) :
      Step (w, v) (w.send false target leaf stack, v)
  | reader {w : Walk} {v : Vault} {change : Request → Request} (hc : ReaderChange change) :
      Step (w, v) ({ w with request := change w.request }, v)

theorem Step.of_visiting {s : Walk × Vault} {target : LayerId} {stack : List NodeHash}
    (phase : s.1.phase = .visiting target stack) : Step s (s.1.visit false s.2 target stack) :=
  .visit phase

/-- Any number of steps. -/
def Leads : Walk × Vault → Walk × Vault → Prop := Relation.ReflTransGen Step

/-- What a walk on its own never changes: what its request is about, what is read,
and how. -/
structure Alike (s s' : Walk × Vault) : Prop where
  stub : s'.1.request.stub = s.1.request.stub
  lookup : ∀ key, s'.2.lookup key = s.2.lookup key
  scheme : s'.2.scheme = s.2.scheme
  legacy : s'.2.legacy = s.2.legacy

namespace Alike

theorem refl (s : Walk × Vault) : Alike s s := ⟨rfl, fun _ => rfl, rfl, rfl⟩

theorem trans {s s' s'' : Walk × Vault} (h : Alike s s') (h' : Alike s' s'') : Alike s s'' :=
  ⟨h'.stub.trans h.stub, fun key => (h'.lookup key).trans (h.lookup key),
    h'.scheme.trans h.scheme, h'.legacy.trans h.legacy⟩

theorem kind {s s' : Walk × Vault} (h : Alike s s') : s'.1.request.kind = s.1.request.kind := by
  rw [← Request.kind_stub, h.stub, Request.kind_stub]

theorem readNode {s s' : Walk × Vault} (h : Alike s s') (hash : NodeHash) :
    Walk.readNode s'.2 hash = Walk.readNode s.2 hash := by
  unfold Walk.readNode
  rw [h.lookup, h.scheme]

end Alike

/-- A node that can be read is found under its address, and is what is found there decoded. -/
theorem readNode_eq_ok {v : Vault} {hash : NodeHash} {encoded : Bytes} {node : Node}
    (h : readNode v hash = .ok (encoded, node)) : v.lookup hash.bytes = some encoded ∧
      v.scheme.address encoded = hash ∧ v.scheme.decode encoded = .ok node := by
  unfold readNode at h
  split at h
  · cases h
  · next found =>
    dsimp only at h
    split at h
    · next addressed =>
      split at h
      · next decoded =>
        cases h
        exact ⟨found, addressed, decoded⟩
      · cases h
    · cases h

theorem lookup_of_readNode {v : Vault} {hash : NodeHash} {encoded : Bytes} {node : Node}
    (h : readNode v hash = .ok (encoded, node)) : v.lookup hash.bytes = some encoded :=
  (readNode_eq_ok h).1

section NoteCopied

variable (v : Vault) (kind : RequestKind) (hash : NodeHash)

theorem lookup_noteCopied (key : Bytes) : (noteCopied v kind hash).lookup key = v.lookup key := by
  cases kind <;> rfl

theorem scheme_noteCopied : (noteCopied v kind hash).scheme = v.scheme := by cases kind <;> rfl

theorem legacy_noteCopied : (noteCopied v kind hash).legacy = v.legacy := by cases kind <;> rfl

theorem holds_noteCopied {id : LayerId} {key value : Bytes} :
    (noteCopied v kind hash).Holds id key value ↔ v.Holds id key value := by cases kind <;> rfl

theorem accepts_noteCopied {id : LayerId} :
    (noteCopied v kind hash).Accepts id ↔ v.Accepts id := by cases kind <;> rfl

end NoteCopied

/-- A visit does not change what is read. -/
theorem alike_visit (closed : Bool) (w : Walk) (v : Vault) (target : LayerId)
    (stack : List NodeHash) : Alike (w, v) (w.visit closed v target stack) := by
  have h := visited closed w v target stack
  have stub := stub_visit closed w v target stack
  generalize w.visit closed v target stack = next at h stub
  obtain ⟨w', v'⟩ := next
  simp only at h
  cases h with
  | unwritten _ _ read written =>
    have same := Vault.eq_of_putInto written
    refine ⟨stub, Vault.lookup_of_putInto (lookup_of_readNode read) written, ?_, ?_⟩
    all_goals
      rw [same]
  | copied _ _ read written =>
    have same := Vault.eq_of_putInto written
    refine ⟨stub, fun key => ?_, ?_, ?_⟩
    · rw [lookup_noteCopied]
      exact Vault.lookup_of_putInto (lookup_of_readNode read) written key
    · rw [scheme_noteCopied, same]
    · rw [legacy_noteCopied, same]
  | _ => exact ⟨stub, fun _ => rfl, rfl, rfl⟩

theorem Step.alike {s s' : Walk × Vault} (h : Step s s') : Alike s s' := by
  cases h with
  | visit _ => exact alike_visit ..
  | send _ _ => exact ⟨stub_send .., fun _ => rfl, rfl, rfl⟩
  | reader hc => exact ⟨hc.stub _, fun _ => rfl, rfl, rfl⟩

/-- From its first step to its last, a walk on its own reads the same. -/
theorem Leads.alike {s s' : Walk × Vault} (h : Leads s s') : Alike s s' := by
  induction h with
  | refl => exact .refl _
  | tail _ last ih => exact ih.trans last.alike

/-! ## Stacks -/

/-- A walk goes on from a stack, whether or not it has a leaf to send first. -/
inductive AtStack (target : LayerId) (stack : List NodeHash) : WalkPhase → Prop where
  | visiting : AtStack target stack (.visiting target stack)
  | sending (leaf : Leaf) : AtStack target stack (.sending target leaf stack)

theorem AtStack.of_visiting {target : LayerId} {stack : List NodeHash} {phase : WalkPhase}
    (h : phase = .visiting target stack) : AtStack target stack phase := by
  rw [h]
  exact .visiting

theorem AtStack.of_sending {target : LayerId} {leaf : Leaf} {stack : List NodeHash}
    {phase : WalkPhase} (h : phase = .sending target leaf stack) : AtStack target stack phase := by
  rw [h]
  exact .sending leaf

theorem AtStack.unique {target target' : LayerId} {stack stack' : List NodeHash}
    {phase : WalkPhase} (h : AtStack target stack phase) (h' : AtStack target' stack' phase) :
    target = target' ∧ stack = stack' := by
  cases h <;> cases h' <;> exact ⟨rfl, rfl⟩

theorem AtStack.going {target : LayerId} {stack : List NodeHash} {phase : WalkPhase}
    (h : AtStack target stack phase) :
    phase ≠ .starting ∧ (∀ outcome, phase ≠ .ended outcome) ∧
      ∀ outcome, phase ≠ .released outcome := by
  cases h <;> exact ⟨nofun, nofun, nofun⟩

theorem atStack_afterCopy (r : Request) (target : LayerId) (node : Node)
    (stack : List NodeHash) :
    AtStack target (node.children ++ stack) (afterCopy r target node stack) := by
  unfold afterCopy
  split
  · split
    · exact .sending _
    · exact .visiting
  · exact .visiting

/-- A walk comes to its next visit, if need be after its reader has left. -/
theorem leads_visiting {s : Walk × Vault} {target : LayerId} {stack : List NodeHash}
    (here : AtStack target stack s.1.phase) :
    ∃ s', Leads s s' ∧ s'.1.phase = .visiting target stack ∧ s'.2 = s.2 := by
  obtain ⟨w, v⟩ := s
  obtain ⟨request, phase⟩ := w
  cases here with
  | visiting => exact ⟨_, .refl, rfl, rfl⟩
  | sending leaf =>
    have leaves : Step (⟨request, .sending target leaf stack⟩, v)
        (⟨request.onSink LeafSink.dropReader, .sending target leaf stack⟩, v) := by
      have change := ReaderChange.ofSink request.id LeafSink.attached_dropReader
      have step := Step.reader (w := ⟨request, .sending target leaf stack⟩) (v := v) change
      simpa using step
    have free : canSend false ⟨request.onSink LeafSink.dropReader, .sending target leaf stack⟩ =
        true := by
      unfold canSend Request.onSink
      cases request.sink <;> simp [LeafSink.dropReader, LeafSink.blocks]
    exact ⟨_, .tail (.single leaves) (.send rfl free), rfl, rfl⟩

end Walk

end TrieStorage

import TrieStorage.Manager.Walk

/-!
# What one step of a walk does

A walk chooses where to copy, visits nodes and sends leaves.  `start_cases` and
`visited` say everything that choosing and a visit can do; sending changes
nothing but the sink and the phase.  None of them changes what the request is
about, or ends it.
-/

namespace TrieStorage

namespace Request

/-- What stays of a request while it is under way: everything but its sink and
the copies counted so far. -/
def stub (r : Request) : Request :=
  { r with
    sink := none
    stats := { inProgress := r.stats.inProgress, finished := r.stats.finished } }

@[simp] theorem stub_onSink (r : Request) (change : LeafSink → LeafSink) :
    (r.onSink change).stub = r.stub := rfl

@[simp] theorem stub_countNode (r : Request) (bytes : Nat) (isLeaf : Bool) :
    (r.countNode bytes isLeaf).stub = r.stub := by
  cases isLeaf <;> rfl

@[simp] theorem id_stub (r : Request) : r.stub.id = r.id := rfl

theorem id_of_stub {r s : Request} (h : r.stub = s.stub) : r.id = s.id := by
  rw [← id_stub r, h, id_stub s]

@[simp] theorem kind_stub (r : Request) : r.stub.kind = r.kind := rfl

@[simp] theorem root_stub (r : Request) : r.stub.root = r.root := rfl

@[simp] theorem finished_stub (r : Request) : r.stub.stats.finished = r.stats.finished := rfl

@[simp] theorem inProgress_stub (r : Request) :
    r.stub.stats.inProgress = r.stats.inProgress := rfl

end Request

namespace Walk

/-! ## Choosing where to copy -/

/-- A walk that chooses where to copy fails, is abandoned or starts at its root;
the vault is the one that the choice leaves. -/
theorem start_cases (w : Walk) (v : Vault) :
    (w.start v).2 = (v.target w.request.kind).2 ∧
      ((∃ e, (v.target w.request.kind).1 = .error e ∧ (w.start v).1 = w.fail (.store e)) ∨
        ((v.target w.request.kind).1 = .ok none ∧
          (w.start v).1 = w.inPhase (.ended .abandoned)) ∨
        ∃ target, (v.target w.request.kind).1 = .ok (some target) ∧
          (w.start v).1 = w.inPhase (.visiting target [w.request.root])) := by
  simp only [start]
  rcases v.target w.request.kind with ⟨e | _ | target, v'⟩
  · exact ⟨rfl, .inl ⟨e, rfl, rfl⟩⟩
  · exact ⟨rfl, .inr (.inl ⟨rfl, rfl⟩)⟩
  · exact ⟨rfl, .inr (.inr ⟨target, rfl, rfl⟩)⟩

@[simp] theorem request_start (w : Walk) (v : Vault) : (w.start v).1.request = w.request := by
  obtain ⟨-, ⟨e, -, h⟩ | ⟨-, h⟩ | ⟨target, -, h⟩⟩ := start_cases w v <;> rw [h] <;> rfl

/-! ## Visits -/

/-- A snapshot passes over nothing. -/
theorem skips_snapshot {r : Request} (kind : r.kind = .snapshot) (v : Vault) (hash : NodeHash) :
    skips v r.kind hash = false := by
  simp [skips, kind]

/-- The walk and the vault after a visit to the top of a stack. -/
inductive Visited (closed : Bool) (w : Walk) (v : Vault) (target : LayerId) :
    List NodeHash → Walk → Vault → Prop where
  /-- Nothing is left to be visited. -/
  | through : Visited closed w v target [] (w.inPhase (.ended .complete)) v
  /-- The manager has been closed. -/
  | cancelled {hash : NodeHash} {rest : List NodeHash} (shut : closed = true) :
      Visited closed w v target (hash :: rest) (w.fail .contextClosing) v
  /-- A checkpoint passes over a hash that is not pending. -/
  | passed {hash : NodeHash} {rest : List NodeHash} (notShut : closed = false)
      (skipped : skips v w.request.kind hash = true) :
      Visited closed w v target (hash :: rest) (w.inPhase (.visiting target rest)) v
  /-- The node cannot be read. -/
  | unread {hash : NodeHash} {rest : List NodeHash} {e : ManagerError} (notShut : closed = false)
      (due : skips v w.request.kind hash = false) (read : readNode v hash = .error e) :
      Visited closed w v target (hash :: rest) (w.fail e) v
  /-- The node cannot be written. -/
  | unwritten {hash : NodeHash} {rest : List NodeHash} {encoded : Bytes} {node : Node}
      {e : StoreError} {v' : Vault} (notShut : closed = false)
      (due : skips v w.request.kind hash = false) (read : readNode v hash = .ok (encoded, node))
      (written : v.putInto target hash.bytes encoded = (.error e, v')) :
      Visited closed w v target (hash :: rest) (w.fail (.store e)) v'
  /-- The node has been copied. -/
  | copied {hash : NodeHash} {rest : List NodeHash} {encoded : Bytes} {node : Node}
      {v' : Vault} (notShut : closed = false)
      (due : skips v w.request.kind hash = false) (read : readNode v hash = .ok (encoded, node))
      (written : v.putInto target hash.bytes encoded = (.ok (), v')) :
      Visited closed w v target (hash :: rest)
        { request := w.request.countNode encoded.length node.entry?.isSome
          phase := afterCopy w.request target node rest }
        (noteCopied v' w.request.kind hash)

/-- A visit does one of these things. -/
theorem visited (closed : Bool) (w : Walk) (v : Vault) (target : LayerId)
    (stack : List NodeHash) :
    Visited closed w v target stack (w.visit closed v target stack).1
      (w.visit closed v target stack).2 := by
  cases stack with
  | nil => exact .through
  | cons hash rest =>
    simp only [visit]
    cases shut : closed with
    | true => exact .cancelled rfl
    | false =>
      cases due : skips v w.request.kind hash with
      | true => exact .passed rfl due
      | false =>
        simp only [Bool.false_eq_true, if_false, copy]
        rcases read : readNode v hash with e | ⟨encoded, node⟩
        · exact .unread rfl due read
        · simp only
          rcases written : v.putInto target hash.bytes encoded with ⟨e | ⟨⟩, v'⟩
          · exact .unwritten rfl due read written
          · exact .copied rfl due read written

theorem stub_visit (closed : Bool) (w : Walk) (v : Vault) (target : LayerId)
    (stack : List NodeHash) :
    (w.visit closed v target stack).1.request.stub = w.request.stub := by
  have h := visited closed w v target stack
  generalize (w.visit closed v target stack).1 = w', (w.visit closed v target stack).2 = v' at h
  cases h with
  | copied => exact Request.stub_countNode ..
  | _ => rfl

/-- Noting that a node has been copied changes nothing that is stored. -/
theorem storage_noteCopied (v : Vault) (kind : RequestKind) (hash : NodeHash) :
    (noteCopied v kind hash).storage = v.storage := by
  cases kind <;> rfl

/-- A visit changes what is stored by one put, or not at all. -/
theorem storage_visit (closed : Bool) (w : Walk) (v : Vault) (target : LayerId)
    (stack : List NodeHash) :
    (w.visit closed v target stack).2.storage = v.storage ∨
      ∃ key value, (w.visit closed v target stack).2.storage =
        (v.storage.put target key value).2 := by
  have h := visited closed w v target stack
  generalize (w.visit closed v target stack).1 = w', (w.visit closed v target stack).2 = v' at h
  cases h with
  | @unwritten hash _ encoded _ _ _ _ _ _ written =>
    exact .inr ⟨hash.bytes, encoded, (congrArg (fun r => r.2.storage) written).symm⟩
  | @copied hash _ encoded _ _ _ _ _ written =>
    rw [storage_noteCopied]
    exact .inr ⟨hash.bytes, encoded, (congrArg (fun r => r.2.storage) written).symm⟩
  | _ => exact .inl rfl

/-! ## Sending -/

@[simp] theorem stub_send (closed : Bool) (w : Walk) (target : LayerId) (leaf : Leaf)
    (stack : List NodeHash) :
    (w.send closed target leaf stack).request.stub = w.request.stub := by
  cases closed <;> rfl

end Walk

end TrieStorage

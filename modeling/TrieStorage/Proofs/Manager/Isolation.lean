import TrieStorage.Proofs.Manager.Alone
import TrieStorage.Proofs.Manager.PutThenGet
import TrieStorage.Proofs.Manager.Snapshot
import TrieStorage.Proofs.Walk.Isolation

/-!
# A snapshot amid other traffic

While a snapshot goes on, callers put and remove under keys that are no addresses under its
root, select epochs, track hashes and forbid pruning.  Two runs are compared, one with such
calls and one without: step by step the walk is at the same point in both, and the vaults are
the same to it, although they are not the same.
-/

namespace TrieStorage

/-- Whether an event is a call that has nothing to do with some addresses. -/
def Event.Aside (addresses : NodeHash → Prop) : Event → Prop
  | .action (.put key _) => ∀ hash, addresses hash → hash.bytes ≠ key
  | .action (.remove hash) => ¬ addresses hash
  | .action .enterPruning | .action .exitPruning | .action (.addDirty _ _)
  | .action (.selectEpoch _) => True
  | _ => False

namespace Manager

/-! ## What a run does on behalf of a request -/

/-- What an event does on behalf of a request. -/
def deed? (m : Manager) (id : RequestId) : Event → Option Deed
  | .move (.visit n) | .move (.send n) =>
    if n = id then (m.walk? id).bind fun w => w.deed? m.closed m.vault else none
  | _ => none

/-- What a run does on behalf of a request, as far as it can go. -/
def deeds (m : Manager) (id : RequestId) : List Event → List Deed
  | [] => []
  | e :: rest =>
    match m.step? e with
    | none => []
    | some next => (m.deed? id e).toList ++ next.deeds id rest

/-! ## Two runs side by side -/

/-- A walk is at the same point in two open managers, whose vaults are the same to it. -/
structure Beside (id : RequestId) (root : NodeHash) (v : Vault) (m n : Manager) : Prop where
  opened : m.closed = false
  opened' : n.closed = false
  walk : n.walk? id = m.walk? id
  finished : n.finished = m.finished
  under : ∀ w, m.walk? id = some w → w.Under v.trie root
  same : v.SameUnder root m.vault
  same' : v.SameUnder root n.vault

namespace Beside

variable {id : RequestId} {root : NodeHash} {v : Vault} {m n : Manager} {w : Walk}

theorem refl (opened : m.closed = false) (uniform : m.vault.storage.main.store.Uniform)
    (under : ∀ w, m.walk? id = some w → w.Under m.vault.trie root) :
    Beside id root m.vault m m :=
  ⟨opened, opened, rfl, rfl, under, .refl uniform, .refl uniform⟩

/-! ### Other calls -/

/-- A call that has nothing to do with the addresses under the root leaves the walk where it
is. -/
theorem aside (h : Beside id root v m n) {e : Event} (aside : e.Aside (v.trie.Reach root)) :
    ∃ m', m.step? e = some m' ∧ m.deed? id e = none ∧ Beside id root v m' n := by
  cases e with
  | move mv => exact aside.elim
  | action a =>
    refine ⟨_, rfl, rfl, ?_⟩
    cases a with
    | put key value =>
      exact ⟨h.opened, h.opened', h.walk, h.finished, h.under, h.same.put aside value, h.same'⟩
    | remove hash =>
      exact ⟨h.opened, h.opened', h.walk, h.finished, h.under, h.same.remove aside, h.same'⟩
    | addDirty root' hashes =>
      exact ⟨h.opened, h.opened', h.walk, h.finished, h.under, h.same.tracker _, h.same'⟩
    | selectEpoch epoch =>
      exact ⟨h.opened, h.opened', h.walk, h.finished, h.under, h.same.selectEpoch epoch, h.same'⟩
    | enterPruning | exitPruning =>
      exact ⟨h.opened, h.opened', h.walk, h.finished, h.under, h.same, h.same'⟩
    | _ => exact aside.elim

/-! ### Events of the walk -/

/-- The walk goes on in the same way in both. -/
theorem advance (h : Beside id root v m n) (found : m.walk? id = some w)
    (next next' : Walk × Vault) (walk : next'.1 = next.1) (number : next.1.request.id = id)
    (under : next.1.Under v.trie root) (same : v.SameUnder root next.2)
    (same' : v.SameUnder root next'.2) : Beside id root v (m.advance next) (n.advance next') := by
  have here : (m.advance next).walk? id = some next.1 :=
    walk?_setWalk (m := { m with vault := next.2 }) found number
  have here' : (n.advance next').walk? id = some next.1 := by
    rw [← walk] at number ⊢
    exact walk?_setWalk (m := { n with vault := next'.2 }) (h.walk.trans found) number
  refine ⟨h.opened, h.opened', here'.trans here.symm, h.finished, fun x hx => ?_, same, same'⟩
  cases here.symm.trans hx
  exact under

/-- What the walk does is compared where it is found. -/
theorem bind (h : Beside id root v m n) {f g : Walk → Option Manager}
    (each : ∀ w, m.walk? id = some w → Option.Rel (Beside id root v) (f w) (g w)) :
    Option.Rel (Beside id root v) (m.walk? id >>= f) (n.walk? id >>= g) := by
  rw [h.walk]
  cases found : m.walk? id with
  | none => exact .none
  | some w => exact each w found

theorem visit (h : Beside id root v m n) :
    Option.Rel (Beside id root v) (m.visit? id) (n.visit? id) := by
  unfold visit?
  rw [h.opened, h.opened']
  refine h.bind fun w found => ?_
  have under := h.under w found
  cases phase : w.phase with
  | visiting target stack =>
    have ahead := Walk.fst_visit_of_same under h.same phase
    have ahead' := Walk.fst_visit_of_same under h.same' phase
    refine .some (h.advance found _ _ (ahead'.trans ahead.symm) ?_ ?_
      (Walk.same_visit h.same phase) (Walk.same_visit h.same' phase))
    · exact (Request.id_of_stub (Walk.stub_visit ..)).trans (walk?_eq_some found).2
    · rw [ahead]
      exact under.visit phase
  | _ => exact .none

theorem send (h : Beside id root v m n) :
    Option.Rel (Beside id root v) (m.send? id) (n.send? id) := by
  unfold send?
  rw [h.opened, h.opened']
  refine h.bind fun w found => ?_
  cases phase : w.phase with
  | sending target leaf stack =>
    dsimp only
    split
    · refine .some (h.advance found (w.send false target leaf stack, m.vault)
        (w.send false target leaf stack, n.vault) rfl ?_ ((h.under w found).send phase) h.same
        h.same')
      exact (Request.id_of_stub (Walk.stub_send ..)).trans (walk?_eq_some found).2
    · exact .none
  | _ => exact .none

theorem release (h : Beside id root v m n) :
    Option.Rel (Beside id root v) (m.release? id) (n.release? id) := by
  refine h.bind fun w found => ?_
  cases phase : w.phase with
  | ended outcome =>
    have next := h.advance found (w.inPhase (.released outcome), m.vault)
      (w.inPhase (.released outcome), n.vault) rfl (walk?_eq_some found).2
      ((h.under w found).release outcome) h.same h.same'
    exact .some ⟨next.opened, next.opened', next.walk, next.finished, next.under, h.same, h.same'⟩
  | _ => exact .none

theorem finish (h : Beside id root v m n) :
    Option.Rel (Beside id root v) (m.finish? id) (n.finish? id) := by
  refine h.bind fun w found => ?_
  cases phase : w.phase with
  | released outcome =>
    -- with its walk gone, only the end of the request is left to compare
    have gone (k : Manager) : walk? ({ k with walks := k.walks.filter fun x =>
        x.request.id ≠ id }.finishRequest w.request) id = none := by
      simp [walk?, finishRequest, finishAtOnce, exitPruning]
    refine .some ⟨h.opened, h.opened', (gone n).trans (gone m).symm, ?_, fun x hx => ?_, h.same,
      h.same'⟩
    · exact congrArg (· ++ [w.request.finish]) h.finished
    · rw [gone m] at hx
      cases hx
  | _ => exact .none

/-- A walk that has begun does not begin. -/
theorem begin (h : Beside id root v m n) :
    Option.Rel (Beside id root v) (m.begin? id) (n.begin? id) := by
  refine h.bind fun w found => ?_
  cases phase : w.phase with
  | starting => exact absurd phase (h.under w found).begun
  | _ => exact .none

theorem reader (h : Beside id root v m n) {change : Request → Request} (hc : ReaderChange change) :
    Beside id root v (m.mapRequests change) (n.mapRequests change) := by
  refine ⟨h.opened, h.opened', ?_, congrArg (List.map change) h.finished, fun x hx => ?_, h.same,
    h.same'⟩
  · rw [walk?_mapRequests hc, walk?_mapRequests hc, h.walk]
  · rw [walk?_mapRequests hc, Option.map_eq_some_iff] at hx
    obtain ⟨w, found, rfl⟩ := hx
    exact (h.under w found).reader hc

/-- An event of the walk happens in both or in neither, and the walk stays at the same point. -/
theorem own (h : Beside id root v m n) {e : Event} (of : e.isOf id = true) :
    Option.Rel (Beside id root v) (m.step? e) (n.step? e) := by
  cases e with
  | action a =>
    obtain ⟨change, hc, same⟩ := act_of of
    have next := h.reader hc
    rw [← same m, ← same n] at next
    exact .some next
  | move mv =>
    cases mv with
    | begin k =>
      obtain rfl : k = id := by simpa [Event.isOf] using of
      exact h.begin
    | visit k =>
      obtain rfl : k = id := by simpa [Event.isOf] using of
      exact h.visit
    | send k =>
      obtain rfl : k = id := by simpa [Event.isOf] using of
      exact h.send
    | release k =>
      obtain rfl : k = id := by simpa [Event.isOf] using of
      exact h.release
    | finish k =>
      obtain rfl : k = id := by simpa [Event.isOf] using of
      exact h.finish
    | _ => simp [Event.isOf] at of

/-- Whatever happens next, it does the same on behalf of the request. -/
theorem deed?_eq (h : Beside id root v m n) (e : Event) : m.deed? id e = n.deed? id e := by
  have next : ((m.walk? id).bind fun w => w.deed? m.closed m.vault) =
      (n.walk? id).bind fun w => w.deed? n.closed n.vault := by
    rw [h.walk, h.opened, h.opened']
    cases found : m.walk? id with
    | none => rfl
    | some w =>
      have under := h.under w found
      simp only [Option.bind_some, under.deed?_eq h.same, under.deed?_eq h.same']
  unfold deed?
  rw [next]

/-! ### Runs -/

/-- After any traffic aside from the walk, it is at the same point as without. -/
theorem run (h : Beside id root v m n) {events : List Event}
    (each : ∀ e ∈ events, e.isOf id = true ∨ e.Aside (v.trie.Reach root)) :
    Option.Rel (Beside id root v) (m.run? events) (n.run? (events.filter (Event.isOf id))) ∧
      m.deeds id events = n.deeds id (events.filter (Event.isOf id)) := by
  induction events generalizing m n with
  | nil => exact ⟨.some h, rfl⟩
  | cons e rest ih =>
    have later := fun x hx => each x (List.mem_cons_of_mem e hx)
    by_cases of : e.isOf id = true
    · have next := h.own of
      simp only [List.filter_cons_of_pos of, run?, deeds, h.deed?_eq e]
      generalize m.step? e = x, n.step? e = y at next
      cases next with
      | none => exact ⟨.none, rfl⟩
      | some next =>
        obtain ⟨beside, same⟩ := ih next later
        exact ⟨beside, congrArg _ same⟩
    · obtain ⟨m', stepped, nothing, next⟩ := h.aside ((each e List.mem_cons_self).resolve_left of)
      simp only [List.filter_cons_of_neg of, run?, deeds, stepped, nothing]
      exact ih next later

end Beside

/-! ## The main store while the manager is open -/

/-- As long as a layer has not been closed, its store goes on making no difference between
epochs. -/
theorem stable_uniform : Layer.Stable fun l => l.closes = 0 → l.store.Uniform := by
  refine ⟨fun {l} h refusals disk key value unclosed => ?_,
    fun {l} h refusals disk key unclosed => ?_, fun {l} _ refusals unclosed => ?_,
    fun h epoch unclosed => ((h unclosed).selectEpoch epoch).1⟩
  · rw [l.closes_put] at unclosed
    exact Layer.uniform_put refusals (h unclosed) disk key value
  · rw [l.closes_remove] at unclosed
    exact Layer.uniform_remove refusals (h unclosed) disk key
  · rw [l.closes_close] at unclosed
    cases unclosed

variable {parts : Parts} {disk : Disk} {refusals : Refusals} {m₀ m : Manager}
  {before events : List Event}

/-- An open manager has not closed its main store. -/
theorem uniform_of_run (given : ∀ store, parts.main = some store → store.Uniform)
    (made : assemble parts disk refusals = .ok m₀) (ran : m₀.run? before = some m)
    (opened : m.closed = false) : m.vault.storage.main.store.Uniform := by
  have left : LayerId.main ∈ m.unclosed := by simp [unclosed, Vault.unclosed, opened]
  have closes := (tally_of_run made ran).unclosed .main left
  exact stable_uniform.of_run (fun store main _ => given store main) made ran
    (Option.some.inj closes)

/-! ## Isolation -/

/-- A snapshot that has just begun in an open manager is isolated from other traffic: calls
that put or remove under keys that are no addresses under its root, select epochs, track hashes
or forbid and allow pruning, any number of them, at any point between its own steps.  Without
them the same steps and leaf readings can be made; at any moment the walk is at the same point
with the same statistics and the same leaves sent, or has ended in the same way, and it has put
the same stored forms under the same addresses in the same order.  The main store, into which the
copies may go, may be of any kind that makes no difference between epochs. -/
theorem snapshot_isolated (given : ∀ store, parts.main = some store → store.Uniform)
    (made : assemble parts disk refusals = .ok m₀) (ran : m₀.run? before = some m)
    (opened : m.closed = false) {id : RequestId} {w : Walk} {target : LayerId}
    (found : m.walk? id = some w) (kind : w.request.kind = .snapshot)
    (phase : w.phase = .visiting target [w.request.root])
    (each : ∀ e ∈ events,
      e.isOf id = true ∨ e.Aside (m.vault.trie.Reach w.request.root)) :
    (m.run? events).map (fun n => (n.walk? id, n.finished)) =
      (m.run? (events.filter (Event.isOf id))).map (fun n => (n.walk? id, n.finished)) ∧
    m.deeds id events = m.deeds id (events.filter (Event.isOf id)) ∧
    ∀ n, m.run? events = some n → ∀ hash, m.vault.trie.Reach w.request.root hash →
      n.vault.trie hash = m.vault.trie hash := by
  have under (x : Walk) (hx : m.walk? id = some x) : x.Under m.vault.trie w.request.root := by
    cases found.symm.trans hx
    refine ⟨kind, by rw [phase]; exact nofun, fun target' stack here hash mem => ?_⟩
    obtain ⟨-, rfl⟩ := here.unique (.of_visiting phase)
    rw [List.mem_singleton.1 mem]
    exact .refl
  have start := Beside.refl opened (uniform_of_run given made ran opened) under
  obtain ⟨beside, deeds⟩ := start.run each
  refine ⟨?_, deeds, fun n ended hash reach => ?_⟩
  · generalize m.run? events = busy, m.run? (events.filter (Event.isOf id)) = alone at beside ⊢
    cases beside with
    | none => rfl
    | some h => simp only [Option.map_some, h.walk, h.finished]
  · rw [ended] at beside
    generalize m.run? (events.filter (Event.isOf id)) = alone at beside
    cases beside with
    | some h => exact congrArg Except.toOption (h.same.readNode reach)

open Walk (leafHash readNode rootHash sampleLeaf sampleRoot)

/-- A snapshot of the root is about to visit it, and will copy into a main store that is split
by epoch and has the trie in its partition of epoch 0. -/
def watchedRun : List Event :=
  [.action (.put activeKey activeValue), .action (.put rootHash.bytes sampleRoot.encode),
    .action (.put leafHash.bytes sampleLeaf.encode),
    .action (.submit .snapshot rootHash (some { capacity := 1, reader := .collecting })),
    .move (.grant 0), .move (.enqueue 0), .move (.dequeue .snapshot), .move .launch,
    .move (.begin 0)]

/-- The snapshot is taken amid other calls, and its copies go to the partitions of epochs 7
and 2. -/
def busyRun : List Event :=
  [.action (.selectEpoch 7), .move (.visit 0), .action (.put [1] [2]), .action .enterPruning,
    .action (.remove .emptyTrie), .action (.selectEpoch 2), .move (.visit 0),
    .action (.addDirty leafHash [leafHash]), .move (.send 0), .action .exitPruning,
    .action (.put activeKey []), .move (.visit 0), .move (.release 0), .move (.finish 0)]

/-- It has done what it does alone, and ended in the same way. -/
theorem busyRun_isolated : ∃ m n k, runFrom byEpoch {} watchedRun = some m ∧
    m.run? busyRun = some n ∧ m.run? (busyRun.filter (Event.isOf 0)) = some k ∧
    n.finished = k.finished ∧ n.vault.trie leafHash = m.vault.trie leafHash ∧
    m.deeds 0 busyRun = [.write rootHash sampleRoot.encode, .write leafHash sampleLeaf.encode,
      .stream ⟨[1], [2]⟩] := by
  have evaluated : ∃ m, runFrom byEpoch {} watchedRun = some m ∧
      (m.closed = false ∧
        m.walk? 0 = some
          { request := { id := 0, kind := .snapshot, root := rootHash,
                         sink := some { capacity := 1, reader := .collecting },
                         stats := Statistics.start {} }
            phase := .visiting .main [rootHash] } ∧
        readNode m.vault rootHash = .ok (sampleRoot.encode, sampleRoot) ∧
        readNode m.vault leafHash = .ok (sampleLeaf.encode, sampleLeaf) ∧
        NodeHash.emptyTrie ∉ [rootHash, leafHash] ∧ (m.run? busyRun).isSome = true ∧
        m.deeds 0 (busyRun.filter (Event.isOf 0)) = [.write rootHash sampleRoot.encode,
          .write leafHash sampleLeaf.encode, .stream ⟨[1], [2]⟩]) :=
    exists_of_runFrom (by decide +kernel)
  obtain ⟨m, ran, opened, found, root, leaf, other, goes, alone⟩ := evaluated
  obtain ⟨m₀, made, ran'⟩ := of_runFrom ran
  obtain ⟨n, busy⟩ := Option.isSome_iff_exists.1 goes
  have given (store : Store) (main : byEpoch.main = some store) : store.Uniform := by
    cases main
    exact ⟨nofun, fun _ => rfl⟩
  have addresses (hash : NodeHash) (reach : m.vault.trie.Reach rootHash hash) :
      hash ∈ [rootHash, leafHash] :=
    ((sample_unfolds root leaf).mem_of_reach (List.mem_singleton_self _) reach).1
  have stranger : ¬ m.vault.trie.Reach rootHash .emptyTrie := fun reach =>
    other (addresses .emptyTrie reach)
  have short {key : Bytes} (short : key.length ≠ 32) (hash : NodeHash)
      (_ : m.vault.trie.Reach rootHash hash) : hash.bytes ≠ key :=
    fun same => short (same ▸ hash.length_bytes)
  have each : ∀ e ∈ busyRun, e.isOf 0 = true ∨ e.Aside (m.vault.trie.Reach rootHash) := by
    simp only [busyRun, List.forall_mem_cons]
    exact ⟨.inr trivial, .inl rfl, .inr (short (by decide)), .inr trivial, .inr stranger,
      .inr trivial, .inl rfl, .inr trivial, .inl rfl, .inr trivial, .inr (short (by decide)),
      .inl rfl, .inl rfl, .inl rfl, nofun⟩
  obtain ⟨same, deeds, reads⟩ := snapshot_isolated given made ran' opened found rfl rfl each
  rw [busy] at same
  cases solo : m.run? (busyRun.filter (Event.isOf 0)) with
  | none =>
    rw [solo] at same
    cases same
  | some k =>
    rw [solo] at same
    refine ⟨m, n, k, ran, busy, solo, congrArg Prod.snd (Option.some.inj same), ?_,
      deeds.trans alone⟩
    exact reads n busy leafHash (.single ⟨_, Vault.trie_eq_some.2 root, List.mem_singleton_self _⟩)

end Manager

end TrieStorage

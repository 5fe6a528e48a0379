import Mathlib.Data.List.Nodup
import TrieStorage.Manager.Event

/-!
# What each move does

One inversion per move: when it can be made, and what it leaves.  The moves of
walks share one form: the walk of a number is in a certain phase, and it or the
manager goes on in a certain way.  Taking a request out of a list takes out
exactly that request, as long as no two requests of the list share a number.
-/

namespace TrieStorage

namespace Manager

/-! ## Taking requests out of lists -/

theorem pick?_eq_some {id : RequestId} {rs rest : List Request} {r : Request}
    (h : pick? id rs = some (r, rest)) :
    r ∈ rs ∧ r.id = id ∧ rest = rs.filter fun s => s.id ≠ id := by
  simp only [pick?, Option.map_eq_some_iff, Prod.mk.injEq] at h
  obtain ⟨s, found, rfl, rfl⟩ := h
  exact ⟨List.mem_of_find?_eq_some found, by simpa using List.find?_some found, rfl⟩

/-- A request that is in a list can be taken out of it. -/
theorem exists_pick?_of_mem {rs : List Request} {r : Request} (h : r ∈ rs) :
    ∃ s rest, pick? r.id rs = some (s, rest) := by
  have found : (rs.find? fun s => s.id = r.id).isSome := by
    rw [List.find?_isSome]
    exact ⟨r, h, by simp⟩
  obtain ⟨s, hs⟩ := Option.isSome_iff_exists.mp found
  exact ⟨s, rs.filter fun t => t.id ≠ r.id, by simp only [pick?, hs, Option.map_some]⟩

/-- With numbers used once, dropping all elements of a number drops one element. -/
theorem perm_cons_filter_ne {α : Type} (number : α → RequestId) :
    ∀ {l : List α} {a : α}, (l.map number).Nodup → a ∈ l →
      l.Perm (a :: l.filter fun b => number b ≠ number a)
  | [], a, _, ha => by cases ha
  | b :: l, a, hn, ha => by
    rw [List.map_cons, List.nodup_cons] at hn
    rcases List.mem_cons.1 ha with rfl | ha
    · have keep : l.filter (fun c => number c ≠ number a) = l := by
        rw [List.filter_eq_self]
        intro c hc
        have : number c ≠ number a := fun e => hn.1 (e ▸ List.mem_map_of_mem hc)
        simpa using this
      rw [List.filter_cons_of_neg (by simp), keep]
    · have distinct : number b ≠ number a := fun e => hn.1 (e ▸ List.mem_map_of_mem ha)
      rw [List.filter_cons_of_pos (by simpa using distinct)]
      exact ((perm_cons_filter_ne number hn.2 ha).cons b).trans (.swap a b _)

theorem pick?_perm {id : RequestId} {rs rest : List Request} {r : Request}
    (hn : (rs.map Request.id).Nodup) (h : pick? id rs = some (r, rest)) :
    rs.Perm (r :: rest) := by
  obtain ⟨hr, rfl, rfl⟩ := pick?_eq_some h
  exact perm_cons_filter_ne Request.id hn hr

/-! ## Walks by number -/

theorem walk?_eq_some {m : Manager} {id : RequestId} {w : Walk} (h : m.walk? id = some w) :
    w ∈ m.walks ∧ w.request.id = id :=
  ⟨List.mem_of_find?_eq_some h, by simpa using List.find?_some h⟩

/-- The numbers of the requests being walked. -/
def walkIds (m : Manager) : List RequestId := m.walks.map fun w => w.request.id

/-- With numbers used once, a walk is found under its number. -/
theorem walk?_of_mem {m : Manager} {w : Walk} (hn : m.walkIds.Nodup) (hw : w ∈ m.walks) :
    m.walk? w.request.id = some w := by
  cases found : m.walk? w.request.id with
  | none =>
    rw [walk?, List.find?_eq_none] at found
    exact absurd (by simp) (found w hw)
  | some x =>
    obtain ⟨hx, same⟩ := walk?_eq_some found
    rw [List.inj_on_of_nodup_map hn hx hw same]

/-- Putting back a walk brings in no other. -/
theorem mem_setWalk {m : Manager} {w w' : Walk} (mem : w' ∈ (m.setWalk w).walks) :
    w' = w ∨ w' ∈ m.walks := by
  obtain ⟨x, before, same⟩ := List.mem_map.1 mem
  split at same
  · exact .inl same.symm
  · rw [← same]
    exact .inr before

/-- Putting back a walk changes nothing about walks that agrees on it and the
walk it replaces. -/
theorem map_setWalk {β : Type} {m : Manager} {w w' : Walk} (f : Walk → β)
    (hn : m.walkIds.Nodup) (hw : w ∈ m.walks) (same : w'.request.id = w.request.id)
    (hf : f w' = f w) : (m.setWalk w').walks.map f = m.walks.map f := by
  simp only [setWalk, List.map_map]
  refine List.map_congr_left fun x hx => ?_
  simp only [Function.comp]
  split
  · next e => rw [hf, List.inj_on_of_nodup_map hn hw hx (same.symm.trans e.symm)]
  · rfl

/-- The walks without that of a number. -/
def otherWalks (m : Manager) (id : RequestId) : List Walk :=
  m.walks.filter fun x => x.request.id ≠ id

/-- With numbers used once, a walk found under a number is one of all. -/
theorem walks_perm {m : Manager} {id : RequestId} {w : Walk} (hn : m.walkIds.Nodup)
    (found : m.walk? id = some w) : m.walks.Perm (w :: m.otherWalks id) := by
  obtain ⟨hw, rfl⟩ := walk?_eq_some found
  exact perm_cons_filter_ne (fun x : Walk => x.request.id) hn hw

/-- Putting back a walk replaces the walk of its number. -/
theorem setWalk_perm {m : Manager} {id : RequestId} {w w' : Walk} (hn : m.walkIds.Nodup)
    (found : m.walk? id = some w) (same : w'.request.id = id) :
    (m.setWalk w').walks.Perm (w' :: m.otherWalks id) := by
  have number : w.request.id = w'.request.id := (walk?_eq_some found).2.trans same.symm
  refine ((walks_perm hn found).map _).trans ?_
  have others : (m.otherWalks id).map (fun x => if x.request.id = w'.request.id then w' else x) =
      m.otherWalks id := by
    refine (List.map_congr_left fun x hx => ?_).trans (List.map_id _)
    have ne : x.request.id ≠ w'.request.id := by
      simpa [same] using (List.mem_filter.1 hx).2
    exact if_neg ne
  rw [List.map_cons, if_pos number, others]

/-! ## Moves of submissions -/

theorem grant?_eq_some {m m' : Manager} {id : RequestId} (h : m.grant? id = some m') :
    ∃ r rest first, pick? id m.waiting = some (r, rest) ∧
      m.waiting.find? (fun s => s.kind = r.kind) = some first ∧ first.id = id ∧
      m.closed = false ∧ m.hasRoom r.kind = true ∧
      m' = { m with waiting := rest, granted := m.granted ++ [r] } := by
  simp only [grant?, Option.bind_eq_bind, Option.bind_eq_some_iff] at h
  obtain ⟨⟨r, rest⟩, picked, first, found, h⟩ := h
  split at h
  · next turn =>
    simp only [Option.some.injEq] at h
    exact ⟨r, rest, first, picked, found, turn.1, by simpa using turn.2.1, turn.2.2, h.symm⟩
  · cases h

theorem enqueue?_eq_some {m m' : Manager} {id : RequestId} (h : m.enqueue? id = some m') :
    ∃ r rest, pick? id m.granted = some (r, rest) ∧
      (m.closed = true ∧ m' = { m with granted := rest }.finishRequest r ∨
        m.closed = false ∧
          m' = { m with granted := rest }.setQueue r.kind (m.queue r.kind ++ [r])) := by
  simp only [enqueue?, Option.bind_eq_bind, Option.bind_eq_some_iff] at h
  obtain ⟨⟨r, rest⟩, picked, h⟩ := h
  refine ⟨r, rest, picked, ?_⟩
  split at h
  · next closed => exact .inl ⟨closed, (Option.some.inj h).symm⟩
  · next closed => exact .inr ⟨by simpa using closed, (Option.some.inj h).symm⟩

theorem reject?_eq_some {m m' : Manager} {id : RequestId} (h : m.reject? id = some m') :
    ∃ r rest, pick? id m.waiting = some (r, rest) ∧ m.closed = true ∧
      m' = { m with waiting := rest }.finishRequest r := by
  simp only [reject?, Option.bind_eq_bind, Option.bind_eq_some_iff] at h
  obtain ⟨⟨r, rest⟩, picked, h⟩ := h
  split at h
  · next closed => exact ⟨r, rest, picked, closed, (Option.some.inj h).symm⟩
  · cases h

/-! ## Moves of the dispatcher -/

theorem dequeue?_eq_some {m m' : Manager} {kind : RequestKind} (h : m.dequeue? kind = some m') :
    ∃ r rest, m.dispatcher = .idle ∧ m.queue kind = r :: rest ∧
      m' = { m.setQueue kind rest with dispatcher := .holding r } := by
  simp only [dequeue?] at h
  split at h
  · next r rest idle queued => exact ⟨r, rest, idle, queued, (Option.some.inj h).symm⟩
  · cases h

theorem launch?_eq_some {m m' : Manager} (h : m.launch? = some m') :
    ∃ r, m.dispatcher = .holding r ∧ m.throttle.canProcess = true ∧
      m' = { m with
        dispatcher := .idle
        throttle := m.throttle.start
        walks := m.walks ++ [{ request := r }] } := by
  simp only [launch?] at h
  split at h
  · next r held =>
    split at h
    · next free => exact ⟨r, held, free, (Option.some.inj h).symm⟩
    · cases h
  · cases h

theorem giveUp?_eq_some {m m' : Manager} (h : m.giveUp? = some m') :
    ∃ r, m.dispatcher = .holding r ∧ m.closed = true ∧
      m' = { m with dispatcher := .stopping }.finishRequest r := by
  simp only [giveUp?] at h
  split at h
  · next r held =>
    split at h
    · next closed => exact ⟨r, held, closed, (Option.some.inj h).symm⟩
    · cases h
  · cases h

theorem halt?_eq_some {m m' : Manager} (h : m.halt? = some m') :
    m.dispatcher = .idle ∧ m.closed = true ∧ m' = { m with dispatcher := .stopping } := by
  simp only [halt?] at h
  split at h
  · next idle =>
    split at h
    · next closed => exact ⟨idle, closed, (Option.some.inj h).symm⟩
    · cases h
  · cases h

theorem drain?_eq_some {m m' : Manager} (h : m.drain? = some m') :
    ∃ r rest, m.dispatcher = .stopping ∧
      (m.snapshots = r :: rest ∧ m' = { m with snapshots := rest }.finishRequest r ∨
        m.snapshots = [] ∧ m.checkpoints = r :: rest ∧
          m' = { m with checkpoints := rest }.finishRequest r) := by
  simp only [drain?] at h
  split at h
  · next r rest stopping queued =>
    exact ⟨r, rest, stopping, .inl ⟨queued, (Option.some.inj h).symm⟩⟩
  · next r rest stopping none queued =>
    exact ⟨r, rest, stopping, .inr ⟨none, queued, (Option.some.inj h).symm⟩⟩
  · cases h

theorem stop?_eq_some {m m' : Manager} (h : m.stop? = some m') :
    m.dispatcher = .stopping ∧ m.snapshots = [] ∧ m.checkpoints = [] ∧ m.granted = [] ∧
      m' = { m with dispatcher := .stopped } := by
  simp only [stop?] at h
  split at h
  · next stopping =>
    split at h
    · next none =>
      simp only [Bool.and_eq_true, List.isEmpty_iff] at none
      exact ⟨stopping, none.1.1, none.1.2, none.2, (Option.some.inj h).symm⟩
    · cases h
  · cases h

/-! ## Moves of walks -/

theorem begin?_eq_some {m m' : Manager} {id : RequestId} (h : m.begin? id = some m') :
    ∃ w, m.walk? id = some w ∧ w.phase = .starting ∧ m' = m.advance (w.start m.vault) := by
  simp only [begin?, Option.bind_eq_bind, Option.bind_eq_some_iff] at h
  obtain ⟨w, found, h⟩ := h
  split at h
  · next phase => exact ⟨w, found, phase, (Option.some.inj h).symm⟩
  · cases h

theorem visit?_eq_some {m m' : Manager} {id : RequestId} (h : m.visit? id = some m') :
    ∃ w target stack, m.walk? id = some w ∧ w.phase = .visiting target stack ∧
      m' = m.advance (w.visit m.closed m.vault target stack) := by
  simp only [visit?, Option.bind_eq_bind, Option.bind_eq_some_iff] at h
  obtain ⟨w, found, h⟩ := h
  split at h
  · next target stack phase => exact ⟨w, target, stack, found, phase, (Option.some.inj h).symm⟩
  · cases h

theorem send?_eq_some {m m' : Manager} {id : RequestId} (h : m.send? id = some m') :
    ∃ w target leaf stack, m.walk? id = some w ∧ w.phase = .sending target leaf stack ∧
      w.canSend m.closed = true ∧ m' = m.setWalk (w.send m.closed target leaf stack) := by
  simp only [send?, Option.bind_eq_bind, Option.bind_eq_some_iff] at h
  obtain ⟨w, found, h⟩ := h
  split at h
  · next target leaf stack phase =>
    split at h
    · next free => exact ⟨w, target, leaf, stack, found, phase, free, (Option.some.inj h).symm⟩
    · cases h
  · cases h

theorem release?_eq_some {m m' : Manager} {id : RequestId} (h : m.release? id = some m') :
    ∃ w outcome, m.walk? id = some w ∧ w.phase = .ended outcome ∧
      m' = { m.setWalk (w.inPhase (.released outcome)) with throttle := m.throttle.finish } := by
  simp only [release?, Option.bind_eq_bind, Option.bind_eq_some_iff] at h
  obtain ⟨w, found, h⟩ := h
  split at h
  · next outcome phase => exact ⟨w, outcome, found, phase, (Option.some.inj h).symm⟩
  · cases h

theorem finish?_eq_some {m m' : Manager} {id : RequestId} (h : m.finish? id = some m') :
    ∃ w outcome, m.walk? id = some w ∧ w.phase = .released outcome ∧
      m' = { m with walks := m.walks.filter fun x => x.request.id ≠ id }.finishRequest
        w.request := by
  simp only [finish?, Option.bind_eq_bind, Option.bind_eq_some_iff] at h
  obtain ⟨w, found, h⟩ := h
  split at h
  · next outcome phase => exact ⟨w, outcome, found, phase, (Option.some.inj h).symm⟩
  · cases h

/-! ## Walks, slots and the vault -/

/-- What a move can do to the walks, the slots and the vault. -/
inductive WalksMoved (m : Manager) : Move → Manager → Prop where
  /-- Nothing. -/
  | still {mv : Move} {m' : Manager} (walks : m'.walks = m.walks)
      (throttle : m'.throttle = m.throttle) (vault : m'.vault = m.vault) : WalksMoved m mv m'
  /-- A walk begins and takes a slot. -/
  | launched {m' : Manager} (r : Request) (free : m.throttle.canProcess = true)
      (walks : m'.walks = m.walks ++ [{ request := r }])
      (throttle : m'.throttle = m.throttle.start) (vault : m'.vault = m.vault) :
      WalksMoved m .launch m'
  | begun {w : Walk} (found : m.walk? w.request.id = some w) (phase : w.phase = .starting) :
      WalksMoved m (.begin w.request.id) (m.advance (w.start m.vault))
  | visited {w : Walk} {target : LayerId} {stack : List NodeHash}
      (found : m.walk? w.request.id = some w) (phase : w.phase = .visiting target stack) :
      WalksMoved m (.visit w.request.id) (m.advance (w.visit m.closed m.vault target stack))
  | sent {w : Walk} {target : LayerId} {leaf : Leaf} {stack : List NodeHash}
      (found : m.walk? w.request.id = some w) (phase : w.phase = .sending target leaf stack)
      (free : w.canSend m.closed = true) :
      WalksMoved m (.send w.request.id) (m.setWalk (w.send m.closed target leaf stack))
  /-- A walk gives its slot back. -/
  | released {w : Walk} {outcome : Outcome} (found : m.walk? w.request.id = some w)
      (phase : w.phase = .ended outcome) :
      WalksMoved m (.release w.request.id)
        { m.setWalk (w.inPhase (.released outcome)) with throttle := m.throttle.finish }
  /-- A walk leaves. -/
  | left {m' : Manager} {w : Walk} {outcome : Outcome} (found : m.walk? w.request.id = some w)
      (phase : w.phase = .released outcome) (walks : m'.walks = m.otherWalks w.request.id)
      (throttle : m'.throttle = m.throttle) (vault : m'.vault = m.vault)
      (finished : m'.finished = m.finished ++ [w.request.finish]) :
      WalksMoved m (.finish w.request.id) m'

/-- A move does one of these things. -/
theorem move?_walks {m m' : Manager} {mv : Move} (h : m.move? mv = some m') :
    WalksMoved m mv m' := by
  cases mv with
  | grant id =>
    obtain ⟨r, rest, first, -, -, -, -, -, rfl⟩ := grant?_eq_some h
    exact .still rfl rfl rfl
  | enqueue id =>
    obtain ⟨r, rest, -, ⟨-, rfl⟩ | ⟨-, rfl⟩⟩ := enqueue?_eq_some h
    · exact .still rfl rfl rfl
    · cases kind : r.kind <;> exact .still rfl rfl rfl
  | reject id =>
    obtain ⟨r, rest, -, -, rfl⟩ := reject?_eq_some h
    exact .still rfl rfl rfl
  | dequeue kind =>
    obtain ⟨r, rest, -, -, rfl⟩ := dequeue?_eq_some h
    cases kind <;> exact .still rfl rfl rfl
  | launch =>
    obtain ⟨r, -, free, rfl⟩ := launch?_eq_some h
    exact .launched r free rfl rfl rfl
  | giveUp =>
    obtain ⟨r, -, -, rfl⟩ := giveUp?_eq_some h
    exact .still rfl rfl rfl
  | halt =>
    obtain ⟨-, -, rfl⟩ := halt?_eq_some h
    exact .still rfl rfl rfl
  | drain =>
    obtain ⟨r, rest, -, ⟨-, rfl⟩ | ⟨-, -, rfl⟩⟩ := drain?_eq_some h
    all_goals exact .still rfl rfl rfl
  | stop =>
    obtain ⟨-, -, -, -, rfl⟩ := stop?_eq_some h
    exact .still rfl rfl rfl
  | begin id =>
    obtain ⟨w, found, phase, rfl⟩ := begin?_eq_some h
    obtain ⟨-, rfl⟩ := walk?_eq_some found
    exact .begun found phase
  | visit id =>
    obtain ⟨w, target, stack, found, phase, rfl⟩ := visit?_eq_some h
    obtain ⟨-, rfl⟩ := walk?_eq_some found
    exact .visited found phase
  | send id =>
    obtain ⟨w, target, leaf, stack, found, phase, free, rfl⟩ := send?_eq_some h
    obtain ⟨-, rfl⟩ := walk?_eq_some found
    exact .sent found phase free
  | release id =>
    obtain ⟨w, outcome, found, phase, rfl⟩ := release?_eq_some h
    obtain ⟨-, rfl⟩ := walk?_eq_some found
    exact .released found phase
  | finish id =>
    obtain ⟨w, outcome, found, phase, rfl⟩ := finish?_eq_some h
    obtain ⟨-, rfl⟩ := walk?_eq_some found
    exact .left found phase rfl rfl rfl rfl

/-- Only choosing where to copy, and copying, change what is stored. -/
theorem vault_move? {m m' : Manager} {mv : Move} (h : m.move? mv = some m')
    (notBegin : ∀ id, mv ≠ .begin id) (notVisit : ∀ id, mv ≠ .visit id) :
    m'.vault = m.vault := by
  cases move?_walks h with
  | still _ _ vault | launched _ _ _ _ vault | left _ _ _ _ vault _ => exact vault
  | begun _ _ => exact absurd rfl (notBegin _)
  | visited _ _ => exact absurd rfl (notVisit _)
  | sent _ _ _ | released _ _ => rfl

end Manager

end TrieStorage

import Mathlib.Data.List.DropRight
import TrieStorage.Proofs.Generation.Outcome

/-!
# Which generations are kept

A layout makes a generation by opening its store and marking it as active.  Then the generation is
put behind the others, and the oldest are let go of until few enough are left.  Which these are
does not depend on how closing them and removing their directories goes: both are attempted, for
one after the other.  If the store cannot be opened or marked, nothing is attempted on the
generations that are there, and the next attempt takes the same number.  So no two generations
that a layout ever has are of one number.
-/

namespace TrieStorage

/-- What a layout needs for making a generation and for letting go of others.  All of it may
fail. -/
structure Backend (σ : Type) where
  openStore : Factory σ
  mark : LayerId → σ → Except StoreError Unit × σ
  close : LayerId → σ → Except StoreError Unit × σ
  /-- Removes a directory with what is in it, and tells whether it has. -/
  removeTree : String → σ → Bool × σ

/-- What is attempted on the way, whether or not it succeeds. -/
inductive Backend.Deed where
  | opening (path : String)
  | marking (layer : LayerId)
  | closing (layer : LayerId)
  | removing (path : String)
  deriving DecidableEq, Repr

namespace Backend

variable {σ : Type}

/-- Remembers an attempt. -/
def noted {α : Type} (deed : Deed) (attempt : σ → α × σ) : σ × List Deed → α × σ × List Deed :=
  fun (s, deeds) => ((attempt s).1, (attempt s).2, deeds ++ [deed])

/-- A backend that remembers what has been attempted. -/
def noting (b : Backend σ) : Backend (σ × List Deed) where
  openStore path := noted (.opening path) (b.openStore path)
  mark layer := noted (.marking layer) (b.mark layer)
  close layer := noted (.closing layer) (b.close layer)
  removeTree path := noted (.removing path) (b.removeTree path)

end Backend

/-- The layers and directories here. -/
def Storage.backend (opener : Opener) : Backend Storage where
  openStore := Storage.factory opener
  mark layer s := s.put layer activeKey activeValue
  close layer s := s.close layer
  removeTree path s :=
    match s.disk.removeTree path with
    | some disk => (true, { s with disk })
    | none => (false, s)

/-! ## Putting that fails -/

theorem Store.disk_put_of_error {store : Store} {disk : Disk} {key value : Bytes} {e : StoreError}
    (failed : (store.put disk key value).1 = .error e) : (store.put disk key value).2.2 = disk := by
  cases store with
  | memory | partitioned => rfl
  | logged store =>
    unfold Store.put LoggedStore.put LoggedStore.append at failed ⊢
    dsimp only at failed ⊢
    split at failed
    · rfl
    · cases failed

/-- A put that fails writes nothing. -/
theorem Storage.disk_put_of_error {s : Storage} {id : LayerId} {key value : Bytes} {e : StoreError}
    (failed : (s.put id key value).1 = .error e) : (s.put id key value).2.disk = s.disk := by
  cases found : s.layer? id with
  | none => rw [put_of_none found]
  | some layer =>
    rw [put_eq found] at failed ⊢
    rw [disk_setLayer]
    rcases layer.put_cases s.refusals s.disk key value with ⟨-, same, -⟩ | ⟨-, same, answer⟩
    · exact same
    · exact same.trans (Store.disk_put_of_error (answer.symm.trans failed))

/-- Everything that was there is as it was. -/
structure Storage.Untouched (s s' : Storage) : Prop where
  grows : s.Grows s'
  content : ∀ file, s'.disk.content file = s.disk.content file

/-! ## Making and letting go, however it turns out -/

namespace Legacy

section

variable {σ : Type}

/-- Lets go of a generation. -/
def dropWith (b : Backend σ) (keepOnDisk : Bool) (g : Generation) (s : σ) : σ :=
  let s := (b.close g.layer s).2
  if keepOnDisk then s else (b.removeTree g.path s).2

/-- Lets go of a number of generations, oldest first. -/
def evictWith (b : Backend σ) (keepOnDisk : Bool) :
    Nat → List Generation → σ → List Generation × σ
  | 0, gs, s => (gs, s)
  | _ + 1, [], s => ([], s)
  | n + 1, g :: gs, s => evictWith b keepOnDisk n gs (dropWith b keepOnDisk g s)

/-- The generation that is made next, if its store is this one. -/
def newest (l : Legacy) (root : String) (layer : LayerId) : Generation :=
  ⟨l.nextId, Generation.pathOf root l.nextId, layer⟩

/-- Makes the next generation, and lets go of the oldest. -/
def createWith (b : Backend σ) (l : Legacy) (root : String) (retention : Retention) (s : σ) :
    Except StoreError LayerId × Legacy × σ :=
  match b.openStore (Generation.pathOf root l.nextId) s with
  | (.error e, s) => (.error e, l, s)
  | (.ok layer, s) =>
    match b.mark layer s with
    | (.error e, s) => (.error e, l, s)
    | (.ok (), s) =>
      let all := l.generations ++ [l.newest root layer]
      let (generations, s) := evictWith b retention.keepOnDisk (all.length - retention.max) all s
      (.ok layer, { l with generations, nextId := l.nextId + 1 }, s)

variable (b : Backend σ) (l : Legacy) (root : String) (retention : Retention) (s : σ)

/-- What is attempted for a generation that is let go of. -/
def parting (keepOnDisk : Bool) (g : Generation) : List Backend.Deed :=
  .closing g.layer :: if keepOnDisk then [] else [.removing g.path]

/-- What is attempted for making the next generation, in that order. -/
def deeds : List Backend.Deed := (l.createWith b.noting root retention (s, [])).2.2.2

theorem fst_evictWith (keepOnDisk : Bool) (n : Nat) (gs : List Generation) :
    (evictWith b keepOnDisk n gs s).1 = gs.drop n := by
  fun_induction evictWith b keepOnDisk n gs s with
  | case1 => rfl
  | case2 => rfl
  | case3 _ _ _ _ ih => exact ih

/-- Those that are let go of are closed and removed in turn, however that goes. -/
theorem evictWith_noting (keepOnDisk : Bool) (n : Nat) (gs : List Generation)
    (deeds : List Backend.Deed) :
    evictWith b.noting keepOnDisk n gs (s, deeds) =
      ((evictWith b keepOnDisk n gs s).1, (evictWith b keepOnDisk n gs s).2,
        deeds ++ (gs.take n).flatMap (parting keepOnDisk)) := by
  fun_induction evictWith b keepOnDisk n gs s generalizing deeds with
  | case1 => simp [evictWith]
  | case2 => simp [evictWith]
  | case3 n g gs s ih =>
    have first : dropWith b.noting keepOnDisk g (s, deeds) =
        (dropWith b keepOnDisk g s, deeds ++ parting keepOnDisk g) := by
      cases keepOnDisk <;> simp [dropWith, Backend.noting, Backend.noted, parting]
    rw [evictWith, first, ih]
    simp

/-- What an attempt to make the next generation comes to. -/
structure Attempt : Prop where
  unopened : ∀ {e : StoreError} {s₁ : σ},
    b.openStore (Generation.pathOf root l.nextId) s = (.error e, s₁) →
    l.createWith b root retention s = (.error e, l, s₁) ∧
      l.deeds b root retention s = [.opening (Generation.pathOf root l.nextId)]
  unmarked : ∀ {layer : LayerId} {e : StoreError} {s₁ s₂ : σ},
    b.openStore (Generation.pathOf root l.nextId) s = (.ok layer, s₁) →
    b.mark layer s₁ = (.error e, s₂) →
    l.createWith b root retention s = (.error e, l, s₂) ∧
      l.deeds b root retention s =
        [.opening (Generation.pathOf root l.nextId), .marking layer]
  /-- The newest are kept, the new one among them.  From the others it parts, oldest first. -/
  made : ∀ {layer : LayerId} {s₁ s₂ : σ},
    b.openStore (Generation.pathOf root l.nextId) s = (.ok layer, s₁) →
    b.mark layer s₁ = (.ok (), s₂) →
    (l.createWith b root retention s).1 = .ok layer ∧
      (l.createWith b root retention s).2.1 =
        { l with
          generations := (l.generations ++ [l.newest root layer]).rtake retention.max
          nextId := l.nextId + 1 } ∧
      l.newest root layer ∈ (l.createWith b root retention s).2.1.generations ∧
      l.deeds b root retention s =
        .opening (Generation.pathOf root l.nextId) :: .marking layer ::
          (l.fading retention).flatMap (parting retention.keepOnDisk)

theorem rtake_concat (pos : 0 < retention.max) (g : Generation) :
    (l.generations ++ [g]).rtake retention.max = l.lasting retention ++ [g] := by
  have few : l.generations.length + 1 - retention.max ≤ l.generations.length := by omega
  rw [List.rtake, List.length_append, List.length_singleton]
  exact List.drop_append_of_le_length few

theorem attempt (pos : 0 < retention.max) : l.Attempt b root retention s := by
  refine ⟨fun opening => ?_, fun opening marking => ?_, fun {layer s₁ s₂} opening marking => ?_⟩
  · simp [createWith, deeds, Backend.noting, Backend.noted, opening]
  · simp [createWith, deeds, Backend.noting, Backend.noted, opening, marking]
  · have few : l.generations.length + 1 - retention.max ≤ l.generations.length := by omega
    have kept : (l.createWith b root retention s).2.1 =
        { l with
          generations := (l.generations ++ [l.newest root layer]).rtake retention.max
          nextId := l.nextId + 1 } := by
      simp only [createWith, opening, marking, fst_evictWith]
      rfl
    refine ⟨?_, kept, ?_, ?_⟩
    · simp only [createWith, opening, marking]
    · rw [kept, rtake_concat l retention pos]
      simp
    · have opened : b.noting.openStore (Generation.pathOf root l.nextId) (s, []) =
          (.ok layer, s₁, [.opening (Generation.pathOf root l.nextId)]) := by
        simp only [Backend.noting, Backend.noted, opening, List.nil_append]
      have marked (before : List Backend.Deed) : b.noting.mark layer (s₁, before) =
          (.ok (), s₂, before ++ [.marking layer]) := by
        simp only [Backend.noting, Backend.noted, marking]
      have gone : (l.generations ++ [l.newest root layer]).take
          ((l.generations ++ [l.newest root layer]).length - retention.max) =
            l.fading retention := by
        rw [List.length_append, List.length_singleton]
        exact List.take_append_of_le_length few
      simp only [deeds, createWith, opened, marked, evictWith_noting, gone]
      rfl

end

/-! ## With layers and directories -/

section

variable {l l' : Legacy} {root : String} {opener : Opener} {retention : Retention}
  {s s' : Storage}

theorem evict_eq_evictWith (opener : Opener) (keepOnDisk : Bool) (n : Nat) (gs : List Generation)
    (s : Storage) :
    evict keepOnDisk n gs s = evictWith (Storage.backend opener) keepOnDisk n gs s := by
  have drop (g : Generation) (s : Storage) :
      dropGeneration keepOnDisk g s = dropWith (Storage.backend opener) keepOnDisk g s := by
    unfold dropGeneration dropWith Storage.backend
    cases keepOnDisk
    · dsimp only
      cases (s.close g.layer).2.disk.removeTree g.path <;> rfl
    · rfl
  fun_induction evict keepOnDisk n gs s with
  | case1 => rfl
  | case2 => rfl
  | case3 n g gs s ih =>
    rw [ih, drop]
    rfl

theorem create_eq_createWith :
    l.create root opener retention s =
      l.createWith (Storage.backend opener) root retention s := by
  unfold create createWith Generation.openIn
  simp only [evict_eq_evictWith opener, Storage.backend, Storage.factory, newest]
  rcases s.openGeneration opener (Generation.pathOf root l.nextId) with ⟨e | layer, s₁⟩
  · rfl
  · dsimp only
    rcases s₁.put layer activeKey activeValue with ⟨e | taken, s₂⟩
    · rfl
    · rfl

/-- A failed attempt leaves everything that was there as it was. -/
theorem untouched_create {e : StoreError}
    (failed : l.create root opener retention s = (.error e, l', s')) :
    l' = l ∧ s.Untouched s' := by
  rcases create_cases failed with ⟨-, -, same, grows⟩ | ⟨-, -, -, -, made, -⟩
  · refine ⟨same, grows, fun file => ?_⟩
    cases creation failed with
    | unopened opening =>
      obtain ⟨disk, rfl | opened, rfl⟩ := Storage.openGeneration_error opening
      · rfl
      · exact (Disk.filed_openAt opened).content file
    | @unmarked store disk _ _ _ opened marking =>
      have still : (l.marking root store disk s).2.disk = disk :=
        Storage.disk_put_of_error (congrArg Prod.fst marking)
      rw [marking] at still
      rw [still]
      exact (Disk.filed_openAt opened).content file
  · cases made

/-- What is left of layers and directories where one more generation has been made. -/
structure Renewed (l : Legacy) (root : String) (retention : Retention) (s s' : Storage) : Prop where
  /-- The store of the new one is open, -/
  store : ∃ layer, s'.layer? (l.next root s).layer = some layer ∧ layer.closes = 0 ∧
    layer.store.Writable
  /-- and its directory is there, if those of the others are their own. -/
  opened : (∀ g ∈ l.generations, g.path = Generation.pathOf root g.id) → (l.next root s).Open s'
  kept : ∀ id, (s.layer? id).isSome → id ∉ (l.fading retention).map Generation.layer →
    s'.layer? id = s.layer? id
  closed : ∀ g ∈ l.fading retention, s'.closes? g.layer = (s.closes? g.layer).map (· + 1)

theorem renewed_create {id : LayerId} (below : ∀ g ∈ l.generations, g.id < l.nextId)
    (pos : 0 < retention.max) (arranged : l.Arranged s)
    (made : l.create root opener retention s = (.ok id, l', s')) :
    id = (l.next root s).layer ∧ l.Renewed root retention s s' := by
  rcases create_cases made with ⟨_, failed, -, -⟩ |
    ⟨store, disk, opening, -, same, -, spared⟩
  · cases failed
  rw [List.take_append_of_le_length (by omega)] at spared
  change Spared (l.fading retention) _ s' at spared
  have grows := l.grows_marking opening
  have new : (l.next root s).Open (l.marking root store disk s).2 :=
    (Generation.open_of_openAt opening (l.nextName root)).tends (Storage.tends_put ..)
  have fresh {x : Generation} (mem : x ∈ l.fading retention) : x.layer ≠ (l.next root s).layer :=
    fun own => arranged.fresh (List.mem_map.2 ⟨x, List.mem_of_mem_take mem, own⟩)
  refine ⟨Except.ok.inj same, ?_, fun path => ?_, fun other known stays => ?_, fun g mem => ?_⟩
  · obtain ⟨serial, layer, own, found, closes, writable⟩ := new.store
    refine ⟨layer, (spared.layer _ fun mem => ?_).trans (own ▸ found), closes, writable⟩
    obtain ⟨x, gone, same⟩ := List.mem_map.1 mem
    exact fresh gone same
  · refine new.spared rfl spared fun x mem => ?_
    have old := List.mem_of_mem_take mem
    exact ⟨path x old, Nat.ne_of_lt (below x old), fresh mem⟩
  · exact (spared.layer other stays).trans (grows.layer other known)
  · obtain ⟨serial, lt, own⟩ := arranged.known g (List.mem_of_mem_take mem)
    have known : (s.layer? g.layer).isSome := by
      rw [own]
      simpa [Storage.layer?] using lt
    have once : ((l.fading retention).map Generation.layer).count g.layer = 1 :=
      List.count_eq_one_of_mem (arranged.distinct.sublist ((List.take_sublist ..).map _))
        (List.mem_map_of_mem mem)
    rw [spared.counted, once, Storage.closes?, grows.layer _ known]
    rfl

end

/-! ## The numbers that are given -/

/-- The generations are in the order of their numbers, all below the next one. -/
structure Numbered (l : Legacy) : Prop where
  ascending : l.generations.Pairwise fun a b => a.id < b.id
  below : ∀ g ∈ l.generations, g.id < l.nextId

theorem numbered_adopt (l : Legacy) (root : String) (opener : Opener) (s : Storage) :
    (l.adopt (Discovery.run root opener s).1).Numbered :=
  have shelved : (l.adopt (Discovery.run root opener s).1).Shelved root
      (Discovery.run root opener s).2 := l.shelved_adopt s
  ⟨shelved.row.ascending, fun _ => shelved.below⟩

section

variable {σ : Type}

/-- A call to make a generation, with stores and directories of any kind, in any state. -/
structure Try (σ : Type) where
  backend : Backend σ
  root : String
  retention : Retention
  state : σ

/-- Calls to make generations, one after the other: what becomes of a layout, and the generations
that are made. -/
def tries : List (Try σ) → Legacy → Legacy × List Generation
  | [], l => (l, [])
  | t :: rest, l =>
    match l.createWith t.backend t.root t.retention t.state with
    | (.error _, l', _) => tries rest l'
    | (.ok layer, l', _) => ((tries rest l').1, l.newest t.root layer :: (tries rest l').2)

/-- The layout once a generation has joined the newest ones. -/
def joined (l : Legacy) (retention : Retention) (g : Generation) : Legacy :=
  { l with generations := l.lasting retention ++ [g], nextId := l.nextId + 1 }

/-- An attempt changes nothing, or makes a generation join the others. -/
theorem createWith_cases (b : Backend σ) (l : Legacy) (root : String) {retention : Retention}
    (pos : 0 < retention.max) (s : σ) :
    (∃ e s', l.createWith b root retention s = (.error e, l, s')) ∨
      ∃ layer s', l.createWith b root retention s =
        (.ok layer, l.joined retention (l.newest root layer), s') := by
  have attempt := l.attempt b root retention s pos
  rcases opening : b.openStore (Generation.pathOf root l.nextId) s with ⟨e | layer, s₁⟩
  · exact .inl ⟨e, s₁, (attempt.unopened opening).1⟩
  · rcases marking : b.mark layer s₁ with ⟨e | taken, s₂⟩
    · exact .inl ⟨e, s₂, (attempt.unmarked opening marking).1⟩
    · obtain ⟨answer, kept, -, -⟩ := attempt.made opening marking
      rw [rtake_concat l retention pos] at kept
      exact .inr ⟨layer, _, Prod.ext answer (Prod.ext kept rfl)⟩

theorem Numbered.createWith {l : Legacy} (h : l.Numbered) (b : Backend σ) (root : String)
    {retention : Retention} (pos : 0 < retention.max) (s : σ) :
    (l.createWith b root retention s).2.1.Numbered := by
  rcases createWith_cases b l root pos s with ⟨e, s', same⟩ | ⟨layer, s', same⟩
  · rw [same]
    exact h
  · rw [same]
    have lasts {g : Generation} (mem : g ∈ l.lasting retention) : g.id < l.nextId :=
      h.below g (List.mem_of_mem_drop mem)
    refine ⟨List.pairwise_append.2 ⟨h.ascending.sublist (List.drop_sublist ..),
      List.pairwise_singleton .., fun g mem new last => ?_⟩, fun g mem => ?_⟩
    · rw [List.mem_singleton.1 last]
      exact lasts mem
    · rcases List.mem_append.1 mem with mem | last
      · exact Nat.lt_succ_of_lt (lasts mem)
      · rw [List.mem_singleton.1 last]
        exact Nat.lt_succ_self _

/-- The numbers that are given follow one another, and what is left is the newest of all. -/
theorem tries_eq (calls : List (Try σ)) (pos : ∀ t ∈ calls, 0 < t.retention.max) (l : Legacy) :
    (tries calls l).2.map Generation.id = List.range' l.nextId (tries calls l).2.length ∧
      (tries calls l).1.nextId = l.nextId + (tries calls l).2.length ∧
      (tries calls l).1.generations <:+ l.generations ++ (tries calls l).2 := by
  induction calls generalizing l with
  | nil => simp [tries]
  | cons t rest ih =>
    obtain ⟨first, later⟩ := List.forall_mem_cons.1 pos
    unfold tries
    rcases createWith_cases t.backend l t.root first t.state with
      ⟨e, s', same⟩ | ⟨layer, s', same⟩
    · rw [same]
      exact ih later l
    · rw [same]
      obtain ⟨ids, next, suffix⟩ := ih later (l.joined t.retention (l.newest t.root layer))
      refine ⟨?_, ?_, suffix.trans ⟨l.fading t.retention, ?_⟩⟩
      · rw [List.map_cons, ids]
        rfl
      · rw [next, List.length_cons, Nat.add_comm _ 1, ← Nat.add_assoc]
        rfl
      · rw [joined, List.append_assoc, ← List.append_assoc, fading, lasting,
          List.take_append_drop, List.singleton_append]

theorem Numbered.tries {l : Legacy} (h : l.Numbered) (calls : List (Try σ))
    (pos : ∀ t ∈ calls, 0 < t.retention.max) :
    ((l.generations ++ (tries calls l).2).map Generation.id).Pairwise (· < ·) := by
  rw [List.map_append, (tries_eq calls pos l).1]
  refine List.pairwise_append.2
    ⟨List.pairwise_map.2 h.ascending, List.pairwise_lt_range', fun n old m given => ?_⟩
  obtain ⟨g, mem, rfl⟩ := List.mem_map.1 old
  exact Nat.lt_of_lt_of_le (h.below g mem) (List.mem_range'_1.1 given).1

end

/-- A layout keeps the newest generations, the one that has been made among them and open, and
parts from the others, oldest first, however that goes; an attempt that fails touches nothing.
Over any number of attempts no two generations are given one number. -/
theorem create_keeps_newest {l : Legacy} {retention : Retention} (numbered : l.Numbered)
    (small : l.nextId + 1 < Generation.idBound) (pos : 0 < retention.max) :
    (∀ {σ : Type} (b : Backend σ) (root : String) (s : σ), l.Attempt b root retention s ∧
      (l.createWith b root retention s).2.1.Numbered ∧
      (l.createWith b root retention s).2.1.nextId < Generation.idBound) ∧
    (∀ (root : String) (opener : Opener) (s : Storage), l.Arranged s →
      l.create root opener retention s =
        l.createWith (Storage.backend opener) root retention s ∧
      (∀ {e : StoreError} {l' : Legacy} {s' : Storage},
        l.create root opener retention s = (.error e, l', s') → l' = l ∧ s.Untouched s') ∧
      ∀ {id : LayerId} {l' : Legacy} {s' : Storage},
        l.create root opener retention s = (.ok id, l', s') →
          id = (l.next root s).layer ∧ l.Renewed root retention s s') ∧
    ∀ {σ : Type} (calls : List (Try σ)), (∀ t ∈ calls, 0 < t.retention.max) →
      ((l.generations ++ (tries calls l).2).map Generation.id).Pairwise (· < ·) ∧
      (tries calls l).1.generations <:+ l.generations ++ (tries calls l).2 ∧
      (tries calls l).1.nextId = l.nextId + (tries calls l).2.length := by
  refine ⟨fun b root s => ⟨l.attempt b root retention s pos,
      numbered.createWith b root pos s, ?_⟩,
    fun root opener s arranged => ⟨create_eq_createWith, untouched_create,
      renewed_create numbered.below pos arranged⟩,
    fun calls all => ⟨numbered.tries calls all, (tries_eq calls all l).2.2,
      (tries_eq calls all l).2.1⟩⟩
  rcases createWith_cases b l root pos s with ⟨e, s', same⟩ | ⟨layer, s', same⟩
  · rw [same]
    exact Nat.lt_of_succ_lt small
  · rw [same]
    exact small

/-- Three generations, of which the numbers in between have been used up. -/
def threeGenerations : Legacy where
  generations := [⟨1, "g/1", .generation 0⟩, ⟨4, "g/4", .generation 1⟩, ⟨6, "g/6", .generation 2⟩]
  nextId := 7

/-- Their stores and directories. -/
def threeStores : Storage where
  disk :=
    { entries := [(["g"], .directory), (["g", "1"], .directory), (["g", "4"], .directory),
        (["g", "6"], .directory)] }
  main := { name := .main, store := .memory {} }
  db := { name := .db, store := .memory {} }
  checkpoints := { name := .checkpoints, store := .memory {} }
  opened := ["1", "4", "6"].map fun name => { name := .generation name, store := .memory {} }

/-- With room for two, the seventh generation makes the layout part from the first and the
fourth. -/
theorem threeGenerations_keeps_newest :
    (threeGenerations.create "g" .memory ⟨2, false⟩ threeStores).2.1.generations =
        [⟨6, "g/6", .generation 2⟩, ⟨7, "g/7", .generation 3⟩] ∧
      threeGenerations.deeds (Storage.backend .memory) "g" ⟨2, false⟩ threeStores =
        [.opening "g/7", .marking (.generation 3), .closing (.generation 0), .removing "g/1",
          .closing (.generation 1), .removing "g/4"] ∧
      (threeGenerations.next "g" threeStores).Open
        (threeGenerations.create "g" .memory ⟨2, false⟩ threeStores).2.2 := by
  have arranged : threeGenerations.Arranged threeStores := by
    refine ⟨by decide, fun g mem => ?_⟩
    simp only [threeGenerations, List.mem_cons, List.not_mem_nil, or_false] at mem
    rcases mem with rfl | rfl | rfl
    · exact ⟨0, by decide, rfl⟩
    · exact ⟨1, by decide, rfl⟩
    · exact ⟨2, by decide, rfl⟩
  obtain ⟨attempts, here, -⟩ := @create_keeps_newest threeGenerations ⟨2, false⟩
    ⟨by decide, by decide⟩ (by decide) (by decide)
  obtain ⟨same, -, leaves⟩ := here "g" .memory threeStores arranged
  have opening : ((Storage.backend .memory).openStore (Generation.pathOf "g" 7) threeStores).1 =
      .ok (.generation 3) := by decide +kernel
  have marking : ((Storage.backend .memory).mark (.generation 3)
      ((Storage.backend .memory).openStore (Generation.pathOf "g" 7) threeStores).2).1 =
        .ok () := by decide +kernel
  obtain ⟨answer, kept, -, deeds⟩ := (attempts (Storage.backend .memory) "g" threeStores).1.made
    (Prod.ext opening rfl) (Prod.ext marking rfl)
  rw [← same] at answer kept
  refine ⟨?_, ?_, (leaves (Prod.ext answer rfl)).2.opened (by decide +kernel)⟩
  · rw [kept]
    decide +kernel
  · rw [deeds]
    decide +kernel

end Legacy

end TrieStorage

import Mathlib.Data.List.Nodup
import TrieStorage.Proofs.Storage.Copying

/-!
# Closing layers

Closing a layer counts, whether or not the layer refuses it, and touches no other.
So closing different layers in turn is closing each of them, and the answer is the
last failure.  A tally tells the layers that are still to be closed from those that
have been closed, once each.
-/

namespace TrieStorage

namespace Layer

variable (layer : Layer) (refusals : Refusals)

theorem closes_put (disk : Disk) (key value : Bytes) :
    (layer.put refusals disk key value).2.1.closes = layer.closes := by
  unfold put
  dsimp only
  split <;> rfl

theorem closes_remove (disk : Disk) (key : Bytes) :
    (layer.remove refusals disk key).2.1.closes = layer.closes := by
  unfold remove
  dsimp only
  split <;> rfl

/-- Closing a layer counts, whether or not it is refused. -/
theorem closes_close : (layer.close refusals).2.closes = layer.closes + 1 := by
  unfold close
  dsimp only
  split <;> rfl

end Layer

namespace Storage

theorem length_opened_setLayer (s : Storage) (id : LayerId) (layer : Layer) :
    (s.setLayer id layer).opened.length = s.opened.length := by
  cases id with
  | generation serial => exact List.length_set
  | _ => rfl

theorem disk_setLayer (s : Storage) (id : LayerId) (layer : Layer) :
    (s.setLayer id layer).disk = s.disk := by
  cases id <;> rfl

/-- How often a layer has been told to close, if it has been opened. -/
def closes? (s : Storage) (id : LayerId) : Option Nat := (s.layer? id).map Layer.closes

theorem layer?_disk (s : Storage) (disk : Disk) (id : LayerId) :
    { s with disk }.layer? id = s.layer? id := by
  cases id <;> rfl

theorem closes?_setLayer {s : Storage} {id : LayerId} {layer layer' : Layer}
    (found : s.layer? id = some layer) (same : layer'.closes = layer.closes) :
    (s.setLayer id layer').closes? = s.closes? := by
  funext other
  unfold closes?
  by_cases own : other = id
  · subst own
    rw [layer?_setLayer_self (Option.isSome_of_eq_some found), found, Option.map_some, same]
    rfl
  · rw [layer?_setLayer_of_ne own]

theorem closes?_disk (s : Storage) (disk : Disk) : { s with disk }.closes? = s.closes? :=
  funext fun id => congrArg (Option.map Layer.closes) (s.layer?_disk disk id)

theorem closes?_put (s : Storage) (id : LayerId) (key value : Bytes) :
    (s.put id key value).2.closes? = s.closes? := by
  cases found : s.layer? id with
  | none => rw [put_of_none found]
  | some layer =>
    rw [put_eq found, ← s.closes?_disk (layer.put s.refusals s.disk key value).2.2]
    exact closes?_setLayer ((s.layer?_disk _ id).trans found) (layer.closes_put ..)

theorem closes?_remove (s : Storage) (id : LayerId) (key : Bytes) :
    (s.remove id key).2.closes? = s.closes? := by
  unfold remove
  split
  · rfl
  · next layer found =>
    rw [← s.closes?_disk (layer.remove s.refusals s.disk key).2.2]
    exact closes?_setLayer ((s.layer?_disk _ id).trans found) (layer.closes_remove ..)

/-! ## Closing one -/

section Close

variable (s : Storage) {id : LayerId}

theorem close_eq {layer : Layer} (found : s.layer? id = some layer) :
    s.close id = ((layer.close s.refusals).1, s.setLayer id (layer.close s.refusals).2) := by
  simp only [close, found]

theorem close_of_none (missing : s.layer? id = none) : s.close id = (.error .closed, s) := by
  simp only [close, missing]

variable (id)

theorem close_cases : (s.close id).2 = s ∨ ∃ layer, (s.close id).2 = s.setLayer id layer := by
  cases found : s.layer? id with
  | none => exact .inl (by rw [s.close_of_none found])
  | some layer => exact .inr ⟨_, by rw [s.close_eq found]⟩

theorem disk_close : (s.close id).2.disk = s.disk := by
  rcases s.close_cases id with same | ⟨layer, same⟩
  · rw [same]
  · rw [same, disk_setLayer]

theorem refusals_close : (s.close id).2.refusals = s.refusals := by
  rcases s.close_cases id with same | ⟨layer, same⟩
  · rw [same]
  · rw [same, refusals_setLayer]

theorem length_opened_close : (s.close id).2.opened.length = s.opened.length := by
  rcases s.close_cases id with same | ⟨layer, same⟩
  · rw [same]
  · rw [same, length_opened_setLayer]

theorem layer?_close_of_ne {other : LayerId} (ne : other ≠ id) :
    (s.close id).2.layer? other = s.layer? other := by
  rcases s.close_cases id with same | ⟨layer, same⟩
  · rw [same]
  · rw [same, layer?_setLayer_of_ne ne]

/-- Closing counts for the layer that is closed and for no other. -/
theorem closes?_close (other : LayerId) :
    (s.close id).2.closes? other = (s.closes? other).map (· + [id].count other) := by
  unfold closes?
  by_cases own : other = id
  · subst own
    cases found : s.layer? other with
    | none =>
      rw [s.close_of_none found, found]
      rfl
    | some layer =>
      rw [s.close_eq found, layer?_setLayer_self (Option.isSome_of_eq_some found),
        Option.map_some, layer.closes_close, List.count_singleton_self]
      rfl
  · have none_ : [id].count other = 0 := List.count_eq_zero_of_not_mem (by simpa using own)
    rw [layer?_close_of_ne s id own, none_, Option.map_map]
    rfl

/-- What a layer answers does not depend on the others. -/
theorem answer_close_of_ne {other : LayerId} (ne : other ≠ id) :
    ((s.close id).2.close other).1 = (s.close other).1 := by
  have same := s.layer?_close_of_ne id ne
  cases found : s.layer? other with
  | none => rw [close_of_none _ (same.trans found), close_of_none _ found]
  | some layer => rw [close_eq _ (same.trans found), close_eq _ found, s.refusals_close id]

end Close

end Storage

/-! ## Closing one after the other -/

namespace Legacy

variable (answer : Except StoreError Unit) (s : Storage)

theorem closeLayers_nil : closeLayers answer [] s = (answer, s) := rfl

theorem closeLayers_cons (id : LayerId) (rest : List LayerId) :
    closeLayers answer (id :: rest) s =
      closeLayers (Vault.lastFailure answer (s.close id).1) rest (s.close id).2 := by
  rw [closeLayers]
  split
  · next closing => rw [closing]; rfl
  · next closing => rw [closing]; rfl

theorem closeLayers_append (ids more : List LayerId) :
    closeLayers answer (ids ++ more) s =
      closeLayers (closeLayers answer ids s).1 more (closeLayers answer ids s).2 := by
  induction ids generalizing answer s with
  | nil => rfl
  | cons id rest ih => rw [List.cons_append, closeLayers_cons, closeLayers_cons, ih]

/-- Closing layers opens none, refuses nothing more, and is not seen on the disk. -/
theorem closeLayers_frame (ids : List LayerId) :
    (closeLayers answer ids s).2.opened.length = s.opened.length ∧
      (closeLayers answer ids s).2.refusals = s.refusals ∧
      (closeLayers answer ids s).2.disk = s.disk := by
  induction ids generalizing answer s with
  | nil => exact ⟨rfl, rfl, rfl⟩
  | cons id rest ih =>
    rw [closeLayers_cons]
    obtain ⟨opened, refusals, disk⟩ := ih (Vault.lastFailure answer (s.close id).1) (s.close id).2
    exact ⟨opened.trans (s.length_opened_close id), refusals.trans (s.refusals_close id),
      disk.trans (s.disk_close id)⟩

theorem closes?_closeLayers (ids : List LayerId) (other : LayerId) :
    (closeLayers answer ids s).2.closes? other = (s.closes? other).map (· + ids.count other) := by
  induction ids generalizing answer s with
  | nil => simp [closeLayers]
  | cons id rest ih =>
    have both (n : Nat) : n + [id].count other + rest.count other = n + (id :: rest).count other := by
      rw [Nat.add_assoc, ← List.count_append]
      rfl
    rw [closeLayers_cons, ih, s.closes?_close, Option.map_map]
    exact congrArg (fun f => (s.closes? other).map f) (funext both)

/-- Different layers answer as each of them would alone. -/
theorem answer_closeLayers {ids : List LayerId} (distinct : ids.Nodup) :
    (closeLayers answer ids s).1 =
      (ids.map fun id => (s.close id).1).foldl Vault.lastFailure answer := by
  induction ids generalizing answer s with
  | nil => rfl
  | cons id rest ih =>
    obtain ⟨fresh, distinct⟩ := List.nodup_cons.1 distinct
    have alone : rest.map (fun other => ((s.close id).2.close other).1) =
        rest.map fun other => (s.close other).1 :=
      List.map_congr_left fun other mem =>
        s.answer_close_of_ne id fun same => fresh (same ▸ mem)
    rw [closeLayers_cons, ih _ _ distinct, alone]
    rfl

end Legacy

/-- The failures among answers. -/
def failures (answers : List (Except StoreError Unit)) : List StoreError :=
  answers.filterMap fun
    | .ok () => none
    | .error e => some e

theorem foldl_lastFailure (answer : Except StoreError Unit)
    (answers : List (Except StoreError Unit)) :
    answers.foldl Vault.lastFailure answer =
      match (failures answers).getLast? with
      | none => answer
      | some e => .error e := by
  induction answers generalizing answer with
  | nil => rfl
  | cons own rest ih =>
    rw [List.foldl_cons, ih]
    cases own with
    | ok _ => rfl
    | error e =>
      have more : failures (.error e :: rest) = e :: failures rest := rfl
      rw [more]
      cases failures rest <;> rfl

/-! ## Tallies -/

/-- Of the layers that are known, each that is left has never been told to close, and
each other has been told once. -/
structure Tally (known : LayerId → Prop) (left : List LayerId) (s : Storage) : Prop where
  distinct : left.Nodup
  unclosed : ∀ id ∈ left, s.closes? id = some 0
  once : ∀ id, known id → s.closes? id = some (if id ∈ left then 0 else 1)

namespace Tally

variable {known known' : LayerId → Prop} {left left' : List LayerId} {s s' : Storage}

/-- Some layers are opened, and some are closed. -/
theorem turn (h : Tally known left s) (gone new : List LayerId)
    (counted : ∀ id n, s.closes? id = some n → s'.closes? id = some (n + gone.count id))
    (opened : ∀ id ∈ new, s.closes? id = none ∧ s'.closes? id = some (gone.count id))
    (distinct : new.Nodup) (moved : (left' ++ gone).Perm (left ++ new)) :
    Tally known left' s' := by
  have apart : (left' ++ gone).Nodup := by
    refine moved.nodup_iff.2 (List.nodup_append.2 ⟨h.distinct, distinct, ?_⟩)
    rintro id mem _ fresh rfl
    have before := h.unclosed id mem
    rw [(opened id fresh).1] at before
    cases before
  have unclosed (id : LayerId) (mem : id ∈ left') : s'.closes? id = some 0 := by
    have stays : gone.count id = 0 :=
      List.count_eq_zero_of_not_mem fun gone => (List.nodup_append.1 apart).2.2 id mem id gone rfl
    rcases List.mem_append.1 (moved.subset (List.mem_append_left gone mem)) with old | fresh
    · rw [counted id 0 (h.unclosed id old), stays]
    · rw [(opened id fresh).2, stays]
  refine ⟨(List.nodup_append.1 apart).1, unclosed, fun id known => ?_⟩
  by_cases stays : id ∈ left'
  · rw [if_pos stays]
    exact unclosed id stays
  · have before := h.once id known
    rw [if_neg stays, counted id _ before]
    by_cases was : id ∈ left
    · -- what was left and is not any more has been closed, and only once
      have leaves : id ∈ gone :=
        (List.mem_append.1 (moved.symm.subset (List.mem_append_left new was))).resolve_left stays
      rw [if_pos was, List.count_eq_one_of_mem (List.nodup_append.1 apart).2.1 leaves]
    · have untouched : id ∉ gone := fun mem => by
        rcases List.mem_append.1 (moved.subset (List.mem_append_right left' mem)) with old | fresh
        · exact was old
        · rw [(opened id fresh).1] at before
          cases before
      rw [if_neg was, List.count_eq_zero_of_not_mem untouched]

/-- Nothing is closed, and nothing opened. -/
theorem still (h : Tally known left s) (same : s'.closes? = s.closes?) : Tally known left s' :=
  h.turn [] [] (fun id n found => (congrFun same id).trans found) (by simp)
    List.nodup_nil (.refl _)

/-- What is left is known as well. -/
theorem learn (h : Tally known left s) (more : ∀ id, known' id → known id ∨ id ∈ left) :
    Tally known' left s := by
  refine ⟨h.distinct, h.unclosed, fun id known' => ?_⟩
  rcases more id known' with known | mem
  · exact h.once id known
  · rw [if_pos mem]
    exact h.unclosed id mem

/-- Layers that are left are closed in turn. -/
theorem closeLayers {gone : List LayerId} (h : Tally known (gone ++ left) s)
    (answer : Except StoreError Unit) :
    Tally known left (Legacy.closeLayers answer gone s).2 := by
  refine h.turn gone [] (fun id n found => ?_) (by simp) List.nodup_nil ?_
  · rw [Legacy.closes?_closeLayers, found]
    rfl
  · rw [List.append_nil]
    exact List.perm_append_comm

end Tally

end TrieStorage

import Mathlib.Data.Set.Finite.Basic
import Mathlib.Logic.Relation
import Mathlib.Order.Preorder.Finite
import TrieStorage.Manager.Walk

/-!
# Tries

The nodes below a root, and the order in which a walk that passes over nothing
comes to them.  A stack unfolds to such an order exactly if every hash below it
has its node and none is below itself.
-/

namespace TrieStorage

/-- The nodes of a trie by address, each with its stored form. -/
abbrev Trie := NodeHash → Option (Bytes × Node)

namespace Trie

/-- One hash is directly below another. -/
def Child (t : Trie) (h c : NodeHash) : Prop := ∃ p, t h = some p ∧ c ∈ p.2.children

/-- One hash is below another, or the same. -/
def Reach (t : Trie) : NodeHash → NodeHash → Prop := Relation.ReflTransGen t.Child

/-- Every hash below the root has its node. -/
def Whole (t : Trie) (root : NodeHash) : Prop := ∀ h, t.Reach root h → (t h).isSome

/-- Below the root, no hash is below itself. -/
def Acyclic (t : Trie) (root : NodeHash) : Prop :=
  ∀ h, t.Reach root h → ¬ Relation.TransGen t.Child h h

/-- Below the root, two tries are the same. -/
theorem reach_of_agree {t t' : Trie} {root h : NodeHash}
    (agree : ∀ h, t.Reach root h → t' h = t h) : t'.Reach root h ↔ t.Reach root h := by
  constructor
  · intro reach
    induction reach with
    | refl => exact .refl
    | tail _ child ih =>
      obtain ⟨p, node, mem⟩ := child
      rw [agree _ ih] at node
      exact ih.tail ⟨p, node, mem⟩
  · intro reach
    induction reach with
    | refl => exact .refl
    | tail above child ih =>
      obtain ⟨p, node, mem⟩ := child
      rw [← agree _ above] at node
      exact ih.tail ⟨p, node, mem⟩

theorem whole_of_agree {t t' : Trie} {root : NodeHash}
    (agree : ∀ h, t.Reach root h → t' h = t h) (whole : t.Whole root) : t'.Whole root := by
  intro h reach
  have reach := (reach_of_agree agree).1 reach
  rw [agree h reach]
  exact whole h reach

theorem acyclic_of_agree {t t' : Trie} {root : NodeHash}
    (agree : ∀ h, t.Reach root h → t' h = t h) (acyclic : t.Acyclic root) : t'.Acyclic root := by
  intro h reach cycle
  have reach := (reach_of_agree agree).1 reach
  refine acyclic h reach ?_
  have along {x : NodeHash} (way : Relation.TransGen t'.Child h x) :
      Relation.TransGen t.Child h x := by
    induction way with
    | single child =>
      obtain ⟨p, node, mem⟩ := child
      rw [agree h reach] at node
      exact .single ⟨p, node, mem⟩
    | tail _ child ih =>
      obtain ⟨p, node, mem⟩ := child
      rw [agree _ (reach.trans ih.to_reflTransGen)] at node
      exact ih.tail ⟨p, node, mem⟩
  exact along cycle

/-! ## Unfolding a stack -/

/-- The hashes that a walk comes to that starts with a stack and passes over
nothing, in the order of the visits. -/
inductive Unfolds (t : Trie) : List NodeHash → List NodeHash → Prop where
  | nil : Unfolds t [] []
  | cons {hash : NodeHash} {rest order : List NodeHash} {p : Bytes × Node}
      (node : t hash = some p) (later : Unfolds t (p.2.children ++ rest) order) :
      Unfolds t (hash :: rest) (hash :: order)

namespace Unfolds

variable {t : Trie} {stack order : List NodeHash} {x h : NodeHash}

/-- Everything below a stack is visited. -/
theorem mem_of_reach (unfolds : t.Unfolds stack order) (hx : x ∈ stack) (reach : t.Reach x h) :
    h ∈ order ∧ (t h).isSome := by
  induction unfolds generalizing x with
  | nil => cases hx
  | @cons hash rest order p node _ ih =>
    rcases List.mem_cons.1 hx with rfl | hx
    · rcases reach.cases_head with rfl | ⟨c, ⟨q, same, child⟩, reach⟩
      · exact ⟨List.mem_cons_self, by rw [node]; rfl⟩
      · rw [node] at same
        cases same
        have := ih (List.mem_append_left _ child) reach
        exact ⟨List.mem_cons_of_mem _ this.1, this.2⟩
    · have := ih (List.mem_append_right _ hx) reach
      exact ⟨List.mem_cons_of_mem _ this.1, this.2⟩

/-- Nothing below a stack is below itself. -/
theorem not_below_self (unfolds : t.Unfolds stack order) (hx : x ∈ stack) (reach : t.Reach x h) :
    ¬ Relation.TransGen t.Child h h := by
  induction unfolds generalizing x with
  | nil => cases hx
  | @cons hash rest order p node _ ih =>
    rcases List.mem_cons.1 hx with rfl | hx
    · intro cycle
      -- a hash on a cycle is below one of its own children
      have onward : ∃ c, t.Child x c ∧ t.Reach c h := by
        rcases reach.cases_head with rfl | onward
        · obtain ⟨c, first, back⟩ := Relation.TransGen.head'_iff.1 cycle
          exact ⟨c, first, back⟩
        · exact onward
      obtain ⟨c, ⟨q, same, child⟩, reach⟩ := onward
      rw [node] at same
      cases same
      exact ih (List.mem_append_left _ child) reach cycle
    · exact ih (List.mem_append_right _ hx) reach

end Unfolds

/-- What every hash of a list can be put on top of, the list can. -/
theorem exists_unfolds_append {t : Trie} {hashes : List NodeHash}
    (each : ∀ h ∈ hashes, ∀ rest order, t.Unfolds rest order → ∃ order, t.Unfolds (h :: rest) order)
    {rest order : List NodeHash} (unfolds : t.Unfolds rest order) :
    ∃ order, t.Unfolds (hashes ++ rest) order := by
  induction hashes with
  | nil => exact ⟨order, unfolds⟩
  | cons h hashes ih =>
    obtain ⟨order, unfolds⟩ := ih fun x hx => each x (List.mem_cons_of_mem h hx)
    exact each h List.mem_cons_self _ _ unfolds

/-- Below an acyclic root, what holds of a hash as soon as it holds of all its
children holds of every hash. -/
theorem Acyclic.induction {t : Trie} (finite : {h | (t h).isSome}.Finite) {root : NodeHash}
    (acyclic : t.Acyclic root) {motive : NodeHash → Prop}
    (up : ∀ h, t.Reach root h → (∀ c, t.Child h c → motive c) → motive h) {h : NodeHash}
    (reach : t.Reach root h) : motive h := by
  -- with finitely many nodes and no cycle, going down comes to an end
  have few : Finite {h // t.Reach root h ∧ (t h).isSome} := finite.subset fun _ h => h.2
  let below (a b : {h // t.Reach root h ∧ (t h).isSome}) : Prop := Relation.TransGen t.Child b.1 a.1
  have : IsTrans _ below := ⟨fun _ _ _ ab bc => bc.trans ab⟩
  have : Std.Irrefl below := ⟨fun a cycle => acyclic a.1 a.2.1 cycle⟩
  have founded : WellFounded below := Finite.wellFounded_of_trans_of_irrefl below
  have blank {h : NodeHash} (reach : t.Reach root h) (missing : ¬ (t h).isSome) : motive h := by
    refine up h reach fun c child => ?_
    obtain ⟨p, node, -⟩ := child
    rw [node] at missing
    exact absurd rfl missing
  have there (h : {h // t.Reach root h ∧ (t h).isSome}) : motive h.1 := by
    induction h using founded.induction with
    | _ h ih =>
      refine up h.1 h.2.1 fun c child => ?_
      have reach := h.2.1.tail child
      by_cases node : (t c).isSome
      · exact ih ⟨c, reach, node⟩ (.single child)
      · exact blank reach node
  by_cases node : (t h).isSome
  · exact there ⟨h, reach, node⟩
  · exact blank reach node

/-- A root unfolds exactly if all is there below it and nothing is below itself. -/
theorem exists_unfolds_iff {t : Trie} (finite : {h | (t h).isSome}.Finite) {root : NodeHash} :
    (∃ order, t.Unfolds [root] order) ↔ t.Whole root ∧ t.Acyclic root := by
  constructor
  · rintro ⟨order, unfolds⟩
    refine ⟨fun h reach => ?_, fun h reach => ?_⟩
    · exact (unfolds.mem_of_reach (List.mem_singleton_self root) reach).2
    · exact unfolds.not_below_self (List.mem_singleton_self root) reach
  · rintro ⟨whole, acyclic⟩
    let Stackable (h : NodeHash) : Prop :=
      ∀ rest order, t.Unfolds rest order → ∃ order, t.Unfolds (h :: rest) order
    have each (h : NodeHash) (reach : t.Reach root h) (ih : ∀ c, t.Child h c → Stackable c) :
        Stackable h := by
      intro rest order unfolds
      obtain ⟨p, node⟩ := Option.isSome_iff_exists.1 (whole h reach)
      obtain ⟨order, later⟩ := exists_unfolds_append (fun c mem => ih c ⟨p, node, mem⟩) unfolds
      exact ⟨_, .cons node later⟩
    exact acyclic.induction finite each .refl [] [] .nil

end Trie

/-- The trie that can be read. -/
def Vault.trie (v : Vault) : Trie := fun hash => (Walk.readNode v hash).toOption

namespace Vault

theorem trie_eq_some {v : Vault} {hash : NodeHash} {p : Bytes × Node} :
    v.trie hash = some p ↔ Walk.readNode v hash = .ok p := by
  unfold trie
  cases Walk.readNode v hash <;> simp [Except.toOption]

end Vault

namespace Walk

/-! ### A root above one leaf -/

/-- A leaf. -/
def sampleLeaf : Node := .leaf ⟨[1], [2]⟩

def leafHash : NodeHash := Scheme.standard.address sampleLeaf.encode

/-- A root above the leaf. -/
def sampleRoot : Node := .branch [leafHash]

def rootHash : NodeHash := Scheme.standard.address sampleRoot.encode

end Walk

end TrieStorage

import TrieStorage.Generation.Basic
import TrieStorage.Proofs.Disk.Listing
import TrieStorage.Proofs.Store.Opening

/-!
# The directories of generations

The directories of different generations are beside each other, under names that
are numbers.
-/

namespace TrieStorage

namespace Path

/-! ## Numbers as names -/

theorem isDigit_of_mem_toString {n : Nat} {c : Char} (mem : c ∈ (toString n).toList) :
    c.isDigit = true := by
  have mem : c ∈ n.repr.toList := mem
  rw [Nat.toList_repr] at mem
  exact Nat.isDigit_of_mem_toDigits (by omega) (by omega) mem

theorem pieces_toString (n : Nat) : pieces (toString n).toList = [(toString n).toList] := by
  refine pieces_of_not_mem fun mem => ?_
  have := isDigit_of_mem_toString mem
  simp at this

theorem toString_ne {n : Nat} : toString n ≠ "" ∧ toString n ≠ "." ∧ toString n ≠ ".." := by
  refine ⟨?_, ?_, ?_⟩
  · intro same
    have full := Nat.toDigits_ne_nil (n := n) (b := 10)
    rw [← Nat.toList_repr, show n.repr = "" from same] at full
    exact full rfl
  all_goals
    intro same
    have dot : '.' ∈ (toString n).toList := by
      rw [same]
      decide
    have := isDigit_of_mem_toString dot
    simp at this

theorem toString_inj {n k : Nat} (same : toString n = toString k) : n = k := by
  have digits : Nat.toDigits 10 n = Nat.toDigits 10 k := by
    rw [← Nat.toList_repr, ← Nat.toList_repr]
    exact congrArg String.toList same
  rw [← Nat.ofDigitChars_ten_toDigits (n := n), digits, Nat.ofDigitChars_ten_toDigits]

theorem resolve_toString (place : Path) (n : Nat) :
    resolve place [toString n] = place ++ [toString n] := by
  obtain ⟨full, dot, back⟩ := toString_ne (n := n)
  rw [resolve, if_neg (by simp only [full, dot, or_self, not_false_eq_true]), if_neg back]
  rfl

end Path

namespace Generation

theorem number?_toString (n : Nat) : Decimal.number? (toString n).toList = some n := by
  have read (digits : List Char) (m : Nat) (all : ∀ c ∈ digits, c.isDigit = true) :
      digits.foldlM (fun n c => (Decimal.digit? c).map fun d => 10 * n + d) m =
        some (Nat.ofDigitChars 10 digits m) := by
    induction digits generalizing m with
    | nil => rfl
    | cons c rest ih =>
      have digit : Decimal.digit? c = some (c.toNat - 48) := by
        have := all c List.mem_cons_self
        simp only [Char.isDigit, Bool.and_eq_true, decide_eq_true_eq] at this
        exact if_pos this
      rw [List.foldlM_cons, digit]
      exact ih _ fun c mem => all c (List.mem_cons_of_mem _ mem)
  have full : (toString n).toList.isEmpty = false := by
    rw [List.isEmpty_eq_false_iff]
    exact fun none_ => Path.toString_ne.1 (String.toList_eq_nil_iff.1 none_)
  unfold Decimal.number?
  have digits : (toString n).toList = Nat.toDigits 10 n := Nat.toList_repr
  rw [full, if_neg (by simp), read _ 0 fun c mem => Path.isDigit_of_mem_toString mem, digits,
    Nat.ofDigitChars_ten_toDigits]

/-- A number is read back from its name, unless it is too great. -/
theorem idOfName?_toString_eq (n : Nat) :
    idOfName? (toString n) = if n < idBound then some n else none := by
  unfold idOfName?
  split
  · next rest signed =>
    have := Path.isDigit_of_mem_toString (n := n) (c := '+') (by rw [signed]; simp)
    simp at this
  · dsimp only
    rw [number?_toString]
    rfl

theorem idOfName?_toString {n : Nat} (small : n < idBound) : idOfName? (toString n) = some n :=
  (idOfName?_toString_eq n).trans (if_pos small)

theorem eq_of_idOfName?_toString {n k : Nat} (read : idOfName? (toString n) = some k) : k = n := by
  rw [idOfName?_toString_eq, Option.ite_none_right_eq_some] at read
  exact (Option.some.inj read.2).symm

end Generation

namespace Disk

variable {disk : Disk}

/-! ## Their places -/

/-- The place where the directories of generations are. -/
def shelf (disk : Disk) (root : String) : Path :=
  (disk.place (Generation.pathOf root 0)).dropLast

theorem place_pathOf (disk : Disk) (root : String) (n : Nat) :
    disk.place (Generation.pathOf root n) = disk.shelf root ++ [toString n] := by
  have above : ∃ place, ∀ n,
      disk.place (Generation.pathOf root n) = place ++ [toString n] := by
    by_cases full : root = ""
    · refine ⟨disk.workDir, fun n => ?_⟩
      have names : Path.names (toString n) = [toString n] := by
        rw [Path.names, Path.pieces_toString, List.map_singleton, String.ofList_toList]
      have start : disk.start? (toString n) = some disk.workDir := by
        rw [start?_eq Path.toString_ne.1, names, if_neg]
        rw [List.head?_cons, Option.some.injEq]
        exact Path.toString_ne.1
      unfold Generation.pathOf Path.join
      rw [if_pos (by simp [full]), place, start, names, Path.resolve_toString]
      rfl
    · refine ⟨disk.place root, fun n => ?_⟩
      rw [Generation.pathOf, place_join full (Path.pieces_toString n), Path.resolve_toString]
  obtain ⟨place, all⟩ := above
  rw [shelf, all, all, List.dropLast_concat]

theorem shelf_eq {root : String} (full : root ≠ "") : disk.shelf root = disk.place root := by
  have first := disk.place_pathOf root 0
  rw [Generation.pathOf, place_join full (Path.pieces_toString 0), Path.resolve_toString] at first
  exact (List.append_cancel_right first).symm

/-- What is made for a generation besides its directory is not below the shelf. -/
theorem place_parents {root path : String} {n : Nat} (straight : Path.Straight root)
    (mem : path ∈ Path.parents (Generation.pathOf root n)) :
    disk.place path <+: disk.shelf root := by
  obtain ⟨begins, full⟩ := Path.mem_parents_join straight.full (Path.pieces_toString n)
    ⟨Path.toString_ne.1, Path.toString_ne.2.1⟩ mem
  rw [shelf_eq straight.full]
  exact place_prefix straight full begins

theorem pathOf_ne (root : String) (n : Nat) : Generation.pathOf root n ≠ "" := by
  unfold Generation.pathOf Path.join
  by_cases empty : root.isEmpty = true
  · rw [if_pos empty]
    exact Path.toString_ne.1
  · have full : root ≠ "" := by simpa using empty
    rw [if_neg empty]
    split <;> simp [full]

theorem not_prefix_pathOf {root : String} {n k : Nat} (ne : n ≠ k) :
    ¬ disk.place (Generation.pathOf root n) <+: disk.place (Generation.pathOf root k) := by
  intro under
  rw [place_pathOf, place_pathOf] at under
  have same := List.append_cancel_left (under.eq_of_length (by simp))
  exact ne (Path.toString_inj (List.cons.inj same).1)

/-! ## Numbers that are free -/

/-- No generation of a number has left anything: there is no directory for it, and
no log in one. -/
structure Vacant (disk : Disk) (root : String) (n : Nat) : Prop where
  directory : disk.entryAt? (disk.shelf root ++ [toString n]) ≠ some .directory
  log : disk.entryAt? (disk.shelf root ++ [toString n] ++ [LoggedStore.logName]) = none

theorem shelf_congr {disk' : Disk} (same : disk'.workDir = disk.workDir) (root : String) :
    disk'.shelf root = disk.shelf root := by
  unfold shelf
  rw [place_congr same]

namespace Vacant

variable {disk' : Disk} {root : String} {n k : Nat} {opener : Opener}

/-- Only the place of a directory and what is below it matter. -/
theorem congr (h : disk.Vacant root k) (workDir : disk'.workDir = disk.workDir)
    (same : ∀ p, disk.shelf root ++ [toString k] <+: p → disk'.entryAt? p = disk.entryAt? p) :
    disk'.Vacant root k := by
  refine ⟨?_, ?_⟩
  · rw [shelf_congr workDir, same _ List.prefix_rfl]
    exact h.directory
  · rw [shelf_congr workDir, same _ (List.prefix_append ..)]
    exact h.log

theorem sameNames (h : disk.Vacant root k) (names : disk.SameNames disk') : disk'.Vacant root k :=
  h.congr names.workDir fun p _ => names.entryAt? p

/-- What is above the shelf is not below a directory on it. -/
theorem of_above (h : disk.Vacant root k) {places : List Path} (linked : Linked places disk disk')
    (above : ∀ p ∈ places, ¬ disk.shelf root ++ [toString k] <+: p) : disk'.Vacant root k :=
  h.congr linked.more.workDir fun p below => linked.only p fun mem => above p mem below

theorem not_below_parents (straight : Path.Straight root) :
    ∀ p ∈ (Path.parents (Generation.pathOf root n)).map disk.place,
      ¬ disk.shelf root ++ [toString k] <+: p := by
  intro p mem below
  obtain ⟨path, inParents, rfl⟩ := List.mem_map.1 mem
  have lengths := (below.trans (place_parents straight inParents)).length_le
  rw [List.length_append, List.length_singleton] at lengths
  omega

theorem openAt_of_ne (h : disk.Vacant root k) (straight : Path.Straight root)
    (ne : n ≠ k) {answer : Except StoreError Store}
    (opened : opener.openAt disk (Generation.pathOf root n) = (answer, disk')) :
    disk'.Vacant root k := by
  have other : ¬ disk.shelf root ++ [toString k] <+: disk.shelf root ++ [toString n] := by
    rw [← place_pathOf, ← place_pathOf]
    exact not_prefix_pathOf ne.symm
  refine h.of_above (linked_openAt (pathOf_ne root n) opened) ?_
  rw [place_pathOf]
  simp only [List.forall_mem_cons]
  refine ⟨other, fun below => other ?_, not_below_parents straight⟩
  rcases List.prefix_concat_iff.1 below with same | below
  · have lengths := congrArg List.length same
    simp at lengths
  · exact below

theorem noLog (h : disk.Vacant root n) (straight : Path.Straight root)
    {answer : Bool} (made : disk.createDirectories (Generation.pathOf root n) = (answer, disk')) :
    disk'.entryAt? (disk'.place (Generation.pathOf root n) ++ [LoggedStore.logName]) = none := by
  have linked := (createDirectories_cases (pathOf_ne root n) made).1
  rw [place_congr linked.more.workDir, linked.only, place_pathOf]
  · exact h.log
  · rw [place_pathOf, List.mem_cons, not_or]
    refine ⟨fun same => ?_, fun mem => ?_⟩
    · have lengths := congrArg List.length same
      simp at lengths
    · exact not_below_parents straight _ mem (List.prefix_append ..)

theorem load_eq (h : disk.Vacant root n) (straight : Path.Straight root)
    {answer : Bool} (made : disk.createDirectories (Generation.pathOf root n) = (answer, disk')) :
    LoggedStore.load disk' (Generation.pathOf root n) = .ok Table.empty := by
  have none_ : disk'.entry? (LoggedStore.logPath (Generation.pathOf root n)) = none := by
    refine Option.eq_none_iff_forall_ne_some.2 fun entry found => ?_
    have there := entryAt?_place_of_entry? found
    rw [place_logPath (pathOf_ne root n), h.noLog straight made] at there
    cases there
  simp only [LoggedStore.load, none_]

/-- A free number stays free as long as its store cannot be opened. -/
theorem openAt_error (h : disk.Vacant root n) (straight : Path.Straight root)
    (usable : Path.isUsable (opening opener (Generation.pathOf root n)) = true) {e : StoreError}
    (failed : opener.openAt disk (Generation.pathOf root n) = (.error e, disk')) :
    disk'.Vacant root n := by
  cases Opener.opened failed with
  | unmade made =>
    obtain ⟨-, ⟨-, linked⟩ | ⟨no, -⟩⟩ := createDirectories_cases (pathOf_ne root n) made
    · exact h.of_above linked (not_below_parents straight)
    · cases no
  | unread made load =>
    rw [h.load_eq straight made] at load
    cases load
  | unopened made load file =>
    -- the directory is there, and nothing is in the way of a log in it
    obtain ⟨-, ⟨no, -⟩ | ⟨-, there⟩⟩ := createDirectories_cases (pathOf_ne root n) made
    · cases no
    · have opens := isSome_openFile_join (by decide) (by decide) (by decide) usable there
        (h.noLog straight made)
      rw [show disk'.openFile (Path.join _ _) = none from file] at opens
      cases opens

theorem openAt (h : disk.Vacant root k) (straight : Path.Straight root)
    (usable : Path.isUsable (opening opener (Generation.pathOf root k)) = true)
    {answer : Except StoreError Store}
    (opened : opener.openAt disk (Generation.pathOf root n) = (answer, disk'))
    (other : ∀ store, answer = .ok store → n ≠ k) : disk'.Vacant root k := by
  by_cases same : n = k
  · subst same
    cases answer with
    | error e => exact h.openAt_error straight usable opened
    | ok store => exact absurd rfl (other store rfl)
  · exact h.openAt_of_ne straight same opened

theorem openAt_ok (h : disk.Vacant root n) (straight : Path.Straight root)
    {store : Store} (opened : opener.openAt disk (Generation.pathOf root n) = (.ok store, disk')) :
    store = .memory {} ∨
      ∃ id, store = .logged ⟨Generation.pathOf root n, some id, Table.empty⟩ := by
  cases Opener.opened opened with
  | memory _ => exact .inl rfl
  | logged made load _ =>
    rw [h.load_eq straight made] at load
    cases load
    exact .inr ⟨_, rfl⟩

/-- On a sound disk a number is free unless its directory is listed. -/
theorem of_sound (sound : disk.Sound) (straight : Path.Straight root)
    (usable : Path.isUsable (opening opener (Generation.pathOf root n)) = true)
    (unlisted : toString n ∉ disk.subdirectories root) : disk.Vacant root n := by
  have usableRoot : Path.isUsable root = true := by
    cases opener with
    | memory => exact Path.isUsable_of_join usable
    | logged => exact Path.isUsable_of_join (Path.isUsable_of_join usable)
  have free : disk.entryAt? (disk.shelf root ++ [toString n]) ≠ some .directory := by
    intro there
    rw [shelf_eq straight.full] at there
    have shelf := sound.parent there
    exact unlisted (mem_subdirectories (sound.isDirectory usableRoot straight shelf) there)
  refine ⟨free, ?_⟩
  refine Option.eq_none_iff_forall_ne_some.2 fun entry log => ?_
  exact free (sound.parent log)

end Vacant

end Disk

end TrieStorage

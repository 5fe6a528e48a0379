import TrieStorage.Proofs.Disk.Ways
import TrieStorage.Proofs.Generation.Outcome

/-!
# How directory names are spelled

A scan reads a directory name as a number, and opens the directory whose name is that number in
plain digits.  Of a name with a plus sign or with zeros in front this is not the directory that
was listed, but another one: it may have been opened before, and it is made if it is not there.
As long as the names that a scan looks at are spelled plainly, it opens what is listed, each
directory once, and makes none.
-/

namespace TrieStorage

namespace Generation

/-- The path of the generation that a directory name stands for. -/
def pathOf? (root name : String) : Option String := (idOfName? name).map (pathOf root)

theorem pathOf?_eq {name : String} {n : Nat} (number : idOfName? name = some n) (root : String) :
    pathOf? root name = some (pathOf root n) := by
  rw [pathOf?, number]
  rfl

/-- A name that is a number in plain digits. -/
def Plain (name : String) : Prop := (idOfName? name).map toString = some name

instance (name : String) : Decidable (Plain name) :=
  inferInstanceAs (Decidable ((idOfName? name).map toString = some name))

theorem Plain.exists_eq {name : String} (plain : Plain name) :
    ∃ n, name = toString n ∧ idOfName? name = some n := by
  obtain ⟨n, number, same⟩ := Option.map_eq_some_iff.1 plain
  exact ⟨n, same.symm, number⟩

theorem Plain.pathOf? {name : String} (plain : Plain name) (root : String) :
    pathOf? root name = some (Path.join root name) := by
  obtain ⟨n, rfl, number⟩ := plain.exists_eq
  exact pathOf?_eq number root

theorem lt_idBound {name : String} {n : Nat} (number : idOfName? name = some n) : n < idBound := by
  unfold idOfName? at number
  obtain ⟨k, -, small⟩ := Option.bind_eq_some_iff.1 number
  split at small
  · cases small
    assumption
  · cases small

end Generation

/-- A factory that remembers the paths it has been asked for. -/
def Factory.noting {σ : Type} (factory : Factory σ) : Factory (σ × List String) :=
  fun dir (s, asked) => ((factory dir s).1, (factory dir s).2, asked ++ [dir])

theorem Path.join_inj {base name name' : String} (same : join base name = join base name') :
    name = name' := by
  unfold join at same
  split at same
  · exact same
  · split at same
    · exact (String.append_right_inj _).1 same
    · exact (String.append_right_inj _).1 same

theorem eq_of_nodup_filterMap {α β : Type} {f : α → Option β} {l : List α} {a b : α} {p : β}
    (once : (l.filterMap f).Nodup) (left : a ∈ l) (right : b ∈ l) (own : f a = some p)
    (own' : f b = some p) : a = b := by
  have apart : l.Pairwise fun x y => ∀ p, f x = some p → f y = some p → x = y :=
    (List.pairwise_filterMap.1 once).imp fun ne p fx fy => absurd rfl (ne p fx p fy)
  exact List.Pairwise.forall_of_forall_of_flip (fun _ _ _ _ _ => rfl) apart
    (apart.imp fun same p fy fx => (same p fx fy).symm) left right p own own'

namespace Discovery

section

variable {σ : Type} {root : String} {factory : Factory σ} {names : List String}
  {found : List Generation} {s : σ}

/-- The names for which a scan asks for a store.  The last may be one whose store cannot be
opened. -/
def looked (root : String) (factory : Factory σ) : List String → σ → List String
  | [], _ => []
  | name :: names, s =>
    match Generation.idOfName? name with
    | none => []
    | some id =>
      match factory (Generation.pathOf root id) s with
      | (.error _, _) => [name]
      | (.ok _, s') => name :: looked root factory names s'

/-- They are looked at in the order in which the scan takes them. -/
theorem front_looked : looked root factory names s <+: names := by
  fun_induction looked root factory names s with
  | case1 => exact List.prefix_rfl
  | case2 => exact List.nil_prefix
  | case3 => exact List.cons_prefix_cons.2 ⟨rfl, List.nil_prefix⟩
  | case4 _ _ _ _ _ _ _ _ ih => exact List.cons_prefix_cons.2 ⟨rfl, ih⟩

/-- Remembering the paths changes nothing, and they are those of the names that are looked at. -/
theorem scanWith_noting (asked : List String) :
    scanWith root factory.noting names found (s, asked) =
      ((scanWith root factory names found s).1, (scanWith root factory names found s).2,
        asked ++ (looked root factory names s).filterMap (Generation.pathOf? root)) := by
  fun_induction looked root factory names s generalizing found asked with
  | case1 => simp [scanWith]
  | case2 name names s number => simp [scanWith, number]
  | case3 name names s id number e s' opening =>
    simp [scanWith, Factory.noting, Generation.pathOf?_eq, number, opening]
  | case4 name names s id number layer s' opening ih =>
    simp [scanWith, Factory.noting, Generation.pathOf?_eq, number, opening, ih]

/-- What is found was found before, or is the generation of a name that is looked at. -/
theorem path_scanWith {g : Generation}
    (mem : g ∈ (scanWith root factory names found s).1.generations) :
    g ∈ found ∨
      ∃ name ∈ looked root factory names s, Generation.pathOf? root name = some g.path := by
  fun_induction looked root factory names s generalizing found with
  | case1 => exact .inl mem
  | case2 name names s number =>
    simp only [scanWith, number] at mem
    exact .inl mem
  | case3 name names s id number e s' opening =>
    simp only [scanWith, number, opening] at mem
    exact .inl mem
  | case4 name names s id number layer s' opening ih =>
    simp only [scanWith, number, opening] at mem
    rcases ih mem with placed | ⟨other, later, own⟩
    · rcases Generation.mem_place placed with rfl | old
      · exact .inr ⟨name, List.mem_cons_self, Generation.pathOf?_eq number root⟩
      · exact .inl old
    · exact .inr ⟨other, List.mem_cons_of_mem name later, own⟩

/-- A scan that nothing ends looks at all names. -/
theorem looked_of_error_eq_none (whole : (scanWith root factory names found s).1.error = none) :
    looked root factory names s = names ∧
      ∀ name ∈ names, ∃ n, Generation.idOfName? name = some n := by
  fun_induction looked root factory names s generalizing found with
  | case1 => exact ⟨rfl, by simp⟩
  | case2 name names s number =>
    simp only [scanWith, number] at whole
    cases whole
  | case3 name names s id number e s' opening =>
    simp only [scanWith, number, opening] at whole
    cases whole
  | case4 name names s id number layer s' opening ih =>
    simp only [scanWith, number, opening] at whole
    obtain ⟨all, numbers⟩ := ih whole
    exact ⟨congrArg (name :: ·) all, List.forall_mem_cons.2 ⟨⟨id, number⟩, numbers⟩⟩

end

/-! ## Directories that are there -/

end Discovery

/-- Where the directory of a store is there, opening the store makes no directory. -/
theorem Disk.directory_of_openAt_join {disk disk' : Disk} {dir name : String} {opener : Opener}
    {answer : Except StoreError Store} (plain : Path.pieces name.toList = [name.toList])
    (own : name ≠ "" ∧ name ≠ "." ∧ name ≠ "..") (there : disk.isDirectory dir = true)
    (listed : disk.entryAt? (disk.place dir ++ [name]) = some .directory)
    (h : opener.openAt disk (Path.join dir name) = (answer, disk')) {p : Path}
    (directory : disk'.entryAt? p = some .directory) : disk.entryAt? p = some .directory := by
  have same {answer : Bool} {disk₁ : Disk}
      (made : disk.createDirectories (Path.join dir name) = (answer, disk₁)) : disk₁ = disk := by
    rw [createDirectories_join plain own there, listed] at made
    split at made
    all_goals
      cases made
      rfl
  cases Opener.opened h with
  | unmade made | memory made | unread made _ | unopened made _ _ => rwa [same made] at directory
  | logged made _ file =>
    rw [same made] at file
    exact directory_of_openFile file directory

namespace Discovery

variable {root : String} {opener : Opener} {names : List String} {found : List Generation}
  {s s' : Storage}

/-- Opening the generation of a listed name that is spelled plainly makes no directory. -/
theorem extends_factory {name : String} {id : Nat} {answer : Except StoreError LayerId}
    (there : s.disk.isDirectory root = true)
    (listed : s.disk.entryAt? (s.disk.place root ++ [name]) = some .directory)
    (plain : Generation.Plain name) (number : Generation.idOfName? name = some id)
    (opening : Storage.factory opener (Generation.pathOf root id) s = (answer, s')) :
    s.disk.Extends s'.disk ∧
      ∀ p, s'.disk.entryAt? p = some .directory → s.disk.entryAt? p = some .directory := by
  obtain ⟨n, rfl, own⟩ := plain.exists_eq
  obtain rfl : n = id := Option.some.inj (own.symm.trans number)
  have made {answer : Except StoreError Store} {disk : Disk}
      (opened : opener.openAt s.disk (Generation.pathOf root n) = (answer, disk)) :
      s.disk.Extends disk ∧
        ∀ p, disk.entryAt? p = some .directory → s.disk.entryAt? p = some .directory :=
    ⟨Disk.extends_openAt opened, fun _ => Disk.directory_of_openAt_join (Path.pieces_toString n)
      Path.toString_ne there listed opened⟩
  cases answer with
  | error e =>
    obtain ⟨disk, rfl | failed, rfl⟩ := Storage.openGeneration_error opening
    · exact ⟨.refl _, fun _ => id⟩
    · exact made failed
  | ok layer =>
    obtain ⟨store, disk, opened, -, rfl⟩ := Storage.openGeneration_eq_ok opening
    exact made opened

/-- Where the names that are looked at are spelled plainly, a scan of listed directories makes
none. -/
theorem directory_of_scanWith (there : s.disk.isDirectory root = true)
    (listed : ∀ name ∈ names, s.disk.entryAt? (s.disk.place root ++ [name]) = some .directory)
    (plain : ∀ name ∈ looked root (Storage.factory opener) names s, Generation.Plain name)
    {p : Path} (directory : (scanWith root (Storage.factory opener) names found s).2.disk.entryAt?
      p = some .directory) : s.disk.entryAt? p = some .directory := by
  fun_induction looked root (Storage.factory opener) names s generalizing found with
  | case1 => exact directory
  | case2 name names s number =>
    simp only [scanWith, number] at directory
    exact directory
  | case3 name names s id number e s' opening =>
    simp only [scanWith, number, opening] at directory
    exact (extends_factory there (listed name List.mem_cons_self) (plain name List.mem_cons_self)
      number opening).2 p directory
  | case4 name names s id number layer s' opening ih =>
    simp only [scanWith, number, opening] at directory
    obtain ⟨more, kept⟩ := extends_factory there (listed name List.mem_cons_self)
      (plain name List.mem_cons_self) number opening
    refine kept p (ih (more.isDirectory there) (fun other mem => ?_)
      (fun other mem => plain other (List.mem_cons_of_mem name mem)) directory)
    rw [Disk.place_congr more.workDir]
    exact more.entries _ _ (listed other (List.mem_cons_of_mem name mem))

/-! ## The whole scan -/

/-- The names for which a scan of a root asks for a store. -/
def lookedAt (root : String) (opener : Opener) (s : Storage) : List String :=
  match s.disk.entry? root with
  | some .directory =>
    looked root (Storage.factory opener) (scanOrder (s.disk.subdirectories root)) s
  | _ => []

/-- The paths at which a scan of a root asks for a store, in their order. -/
def asked (root : String) (opener : Opener) (s : Storage) : List String :=
  (runWith root (Storage.factory opener).noting s.disk (s, [])).2.2

/-- A scan that opens what it found. -/
structure Faithful (root : String) (opener : Opener) (s : Storage) : Prop where
  /-- The path of each generation is that of a directory that was listed. -/
  listed : ∀ g ∈ (run root opener s).1.generations,
    ∃ name ∈ s.disk.subdirectories root, g.path = Path.join root name
  /-- No place is opened twice. -/
  once : ((asked root opener s).map s.disk.place).Nodup
  /-- No directory is made. -/
  unmade : ∀ p, (run root opener s).2.disk.entryAt? p = some .directory →
    s.disk.entryAt? p = some .directory

theorem run_of_isDirectory (opener : Opener) (there : s.disk.entry? root = some .directory) :
    run root opener s =
        scanWith root (Storage.factory opener) (scanOrder (s.disk.subdirectories root)) [] s ∧
      lookedAt root opener s =
        looked root (Storage.factory opener) (scanOrder (s.disk.subdirectories root)) s := by
  refine ⟨(run_eq_runWith root opener s).trans (runWith_eq there), ?_⟩
  unfold lookedAt
  rw [there]

/-- Remembering the paths does not change a scan, and they are those of the names that it looks
at. -/
theorem runWith_noting (root : String) (opener : Opener) (s : Storage) :
    runWith root (Storage.factory opener).noting s.disk (s, []) =
        ((run root opener s).1, (run root opener s).2, asked root opener s) ∧
      asked root opener s = (lookedAt root opener s).filterMap (Generation.pathOf? root) := by
  by_cases there : s.disk.entry? root = some .directory
  · obtain ⟨whole, looks⟩ := run_of_isDirectory opener there
    rw [asked, runWith_eq there, scanWith_noting, whole, looks, List.nil_append]
    exact ⟨rfl, rfl⟩
  · unfold asked runWith run lookedAt
    rcases found : s.disk.entry? root with _ | _ | _
    · exact ⟨rfl, rfl⟩
    · exact absurd found there
    · exact ⟨rfl, rfl⟩

/-- Where there is no directory, nothing is opened. -/
theorem faithful_of_not_isDirectory (none_ : s.disk.entry? root ≠ some .directory) :
    Faithful root opener s ∧ lookedAt root opener s = [] := by
  have nothing : (run root opener s).1.generations = [] ∧ (run root opener s).2 = s ∧
      lookedAt root opener s = [] := by
    unfold run lookedAt
    rcases found : s.disk.entry? root with _ | _ | _
    · exact ⟨rfl, rfl, rfl⟩
    · exact absurd found none_
    · exact ⟨rfl, rfl, rfl⟩
  obtain ⟨none', still, unlooked⟩ := nothing
  refine ⟨⟨?_, ?_, ?_⟩, unlooked⟩
  · simp [none']
  · rw [(runWith_noting root opener s).2, unlooked]
    exact List.nodup_nil
  · rw [still]
    exact fun _ => id

/-- Names that are spelled plainly are looked at under their own paths. -/
theorem asked_of_plain (plain : ∀ name ∈ lookedAt root opener s, Generation.Plain name) :
    asked root opener s = (lookedAt root opener s).map (Path.join root) := by
  rw [(runWith_noting root opener s).2, ← List.filterMap_eq_map]
  exact List.filterMap_congr fun name mem => (plain name mem).pathOf? root

theorem faithful_of_plain (unique : s.disk.Unique)
    (plain : ∀ name ∈ lookedAt root opener s, Generation.Plain name) : Faithful root opener s := by
  by_cases there : s.disk.entry? root = some .directory
  · have directory : s.disk.isDirectory root = true := decide_eq_true there
    obtain ⟨whole, looks⟩ := run_of_isDirectory opener there
    have front : lookedAt root opener s <+: scanOrder (s.disk.subdirectories root) := by
      rw [looks]
      exact front_looked
    refine ⟨fun g found => ?_, ?_, fun p made => ?_⟩
    · rw [whole] at found
      obtain none_ | ⟨name, mem, own⟩ := path_scanWith found
      · cases none_
      · rw [← looks] at mem
        rw [(plain name mem).pathOf? root] at own
        exact ⟨name, mem_scanOrder.1 (front.subset mem), (Option.some.inj own).symm⟩
    · have places : (asked root opener s).map s.disk.place =
          (lookedAt root opener s).map fun name => s.disk.place root ++ [name] := by
        rw [asked_of_plain plain, List.map_map]
        refine List.map_congr_left fun name mem => ?_
        obtain ⟨n, rfl, -⟩ := (plain name mem).exists_eq
        exact Disk.place_join_of_isDirectory (Path.pieces_toString n) Path.toString_ne directory
      rw [places]
      refine List.Nodup.map (fun name name' same => ?_)
        (front.sublist.nodup (nodup_scanOrder (Disk.nodup_subdirectories unique root)))
      exact List.singleton_inj.1 (List.append_cancel_left same)
    · rw [whole] at made
      rw [looks] at plain
      refine directory_of_scanWith directory (fun name mem => ?_) plain made
      exact (Disk.mem_subdirectories_iff unique directory).1 (mem_scanOrder.1 mem)
  · exact (faithful_of_not_isDirectory there).1

/-- A scan that nothing ends opens what it found only if all names are spelled plainly. -/
theorem Faithful.plain (h : Faithful root opener s)
    (there : s.disk.entry? root = some .directory) (complete : (run root opener s).1.error = none) :
    ∀ name ∈ s.disk.subdirectories root, Generation.Plain name := by
  intro name listed
  obtain ⟨whole, looks⟩ := run_of_isDirectory opener there
  rw [whole] at complete
  obtain ⟨all, numbers⟩ := looked_of_error_eq_none complete
  rw [all] at looks
  obtain ⟨n, number⟩ := numbers name (mem_scanOrder.2 listed)
  -- the generation of that number has been found, so its own directory is there as well
  have outcome : Outcome root (Storage.factory opener) (s.disk.subdirectories root) s
      (scanWith root (Storage.factory opener) (scanOrder (s.disk.subdirectories root)) [] s).1 :=
    outcome_scanWith fun u mem name _ => by
      rw [complaint_of_passed (decide_eq_true there) mem]
  obtain ⟨g, found, id⟩ := (outcome.found n).2 ⟨name, listed, number, fun bad mem said =>
    absurd (outcome.whole.1 complete bad mem) said⟩
  have path := outcome.path g found
  rw [← whole] at found
  obtain ⟨name', listed', same⟩ := h.listed g found
  rw [path, id] at same
  obtain rfl : toString n = name' := Path.join_inj same
  -- two names of one number would be opened as one
  have own : Generation.idOfName? (toString n) = some n :=
    Generation.idOfName?_toString (Generation.lt_idBound number)
  have once := h.once.of_map
  rw [(runWith_noting root opener s).2, looks] at once
  obtain rfl := eq_of_nodup_filterMap once (mem_scanOrder.2 listed) (mem_scanOrder.2 listed')
    (Generation.pathOf?_eq number root) (Generation.pathOf?_eq own root)
  rw [Generation.Plain, own]
  rfl

/-- If all names that a scan looks at are spelled plainly, it opens what it found: those
directories in that order.  A scan that nothing ends does so only then. -/
theorem run_faithful (unique : s.disk.Unique) :
    runWith root (Storage.factory opener).noting s.disk (s, []) =
        ((run root opener s).1, (run root opener s).2, asked root opener s) ∧
      ((∀ name ∈ lookedAt root opener s, Generation.Plain name) →
        Faithful root opener s ∧
          asked root opener s = (lookedAt root opener s).map (Path.join root)) ∧
      (s.disk.entry? root = some .directory → (run root opener s).1.error = none →
        (Faithful root opener s ↔
          ∀ name ∈ s.disk.subdirectories root, Generation.Plain name)) := by
  refine ⟨(runWith_noting root opener s).1,
    fun plain => ⟨faithful_of_plain unique plain, asked_of_plain plain⟩, fun there complete => ?_⟩
  refine ⟨fun faithful => faithful.plain there complete, fun plain => ?_⟩
  refine faithful_of_plain unique fun name mem => plain name ?_
  rw [(run_of_isDirectory opener there).2] at mem
  exact mem_scanOrder.1 (front_looked.subset mem)

/-- A storage with nothing but directories under a root. -/
def shelfOf (names : List String) : Storage where
  disk :=
    { entries := (["g"], .directory) :: names.map fun name => (["g", name], .directory) }
  main := { name := .main, store := .memory {} }
  db := { name := .db, store := .memory {} }
  checkpoints := { name := .checkpoints, store := .memory {} }

/-- Of three directories the last is no number.  The others are opened in the order of their
names, and nothing is made but the logs in them. -/
theorem shelfOf_faithful : Faithful "g" .logged (shelfOf ["3", "10", "3x"]) ∧
    asked "g" .logged (shelfOf ["3", "10", "3x"]) = ["g/10", "g/3"] := by
  have unique : (shelfOf ["3", "10", "3x"]).disk.Unique := by
    unfold Disk.Unique
    decide +kernel
  have there : (shelfOf ["3", "10", "3x"]).disk.entry? "g" = some .directory := by decide +kernel
  have sorted : scanOrder ((shelfOf ["3", "10", "3x"]).disk.subdirectories "g") =
      ["10", "3", "3x"] := by
    have listed : ((shelfOf ["3", "10", "3x"]).disk.subdirectories "g").Perm ["10", "3", "3x"] := by
      decide +kernel
    rw [scanOrder_congr listed]
    exact List.mergeSort_of_pairwise (by decide +kernel)
  have looks : lookedAt "g" .logged (shelfOf ["3", "10", "3x"]) = ["10", "3"] := by
    rw [(run_of_isDirectory .logged there).2, sorted]
    decide +kernel
  obtain ⟨-, opens, -⟩ := @run_faithful "g" .logged _ unique
  rw [looks] at opens
  exact opens (by decide +kernel)

/-- A number with zeros in front is the only one that is listed: its directory is not opened, and
another one is made.  Of two spellings of a number the directory of one is opened twice. -/
theorem shelfOf_unfaithful :
    ((run "g" .logged (shelfOf ["007"])).1.generations.map Generation.path = ["g/7"] ∧
      (run "g" .logged (shelfOf ["007"])).1.error = none ∧
      (shelfOf ["007"]).disk.entry? "g/7" = none ∧
      (run "g" .logged (shelfOf ["007"])).2.disk.entry? "g/7" = some .directory ∧
      ¬ Faithful "g" .logged (shelfOf ["007"])) ∧
    asked "g" .memory (shelfOf ["7", "+7"]) = ["g/7", "g/7"] ∧
      ¬ Faithful "g" .memory (shelfOf ["7", "+7"]) := by
  have padded : run "g" .logged (shelfOf ["007"]) =
      scanWith "g" (Storage.factory .logged) ["007"] [] (shelfOf ["007"]) := by
    rw [(run_of_isDirectory .logged (by decide +kernel)).1]
    exact congrArg (scanWith _ _ · _ _) (List.mergeSort_of_pairwise (by decide +kernel))
  have signed : asked "g" .memory (shelfOf ["7", "+7"]) = ["g/7", "g/7"] := by
    have sorted : scanOrder ((shelfOf ["7", "+7"]).disk.subdirectories "g") = ["+7", "7"] := by
      have listed : ((shelfOf ["7", "+7"]).disk.subdirectories "g").Perm ["+7", "7"] := by
        decide +kernel
      rw [scanOrder_congr listed]
      exact List.mergeSort_of_pairwise (by decide +kernel)
    rw [asked, runWith_eq (by decide +kernel), sorted]
    decide +kernel
  refine ⟨⟨?_, ?_, by decide +kernel, ?_, fun faithful => ?_⟩, signed, fun faithful => ?_⟩
  · rw [padded]
    decide +kernel
  · rw [padded]
    decide +kernel
  · rw [padded]
    decide +kernel
  · have before := faithful.unmade ["g", "7"] (by rw [padded]; decide +kernel)
    exact absurd before (by decide +kernel)
  · have once := faithful.once
    rw [signed] at once
    exact absurd once (by decide +kernel)

end Discovery

end TrieStorage

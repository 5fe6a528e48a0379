import TrieStorage.Proofs.Disk.Names

/-!
# Places

A path text that leads anywhere leads to one place, which the text and the
working directory determine.  Making directories and opening a file give names
to such places and leave all others alone; removing a tree takes names away
from the places below it only.
-/

namespace TrieStorage

namespace Path

/-- The place that names lead to, if they lead anywhere. -/
def resolve (place : Path) : List String → Path
  | [] => place
  | name :: rest =>
    if name = "" ∨ name = "." then resolve place rest
    else if name = ".." then resolve place.dropLast rest
    else resolve (place ++ [name]) rest

theorem resolve_append (place : Path) (front back : List String) :
    resolve place (front ++ back) = resolve (resolve place front) back := by
  induction front generalizing place with
  | nil => rfl
  | cons name front ih =>
    simp only [List.cons_append, resolve]
    split
    · exact ih place
    · split
      · exact ih place.dropLast
      · exact ih (place ++ [name])

theorem resolve_dropSlashes (place : Path) (names : List String) :
    resolve place (dropSlashes names) = resolve place names := by
  unfold dropSlashes
  generalize same : names.reverse = back
  obtain rfl : names = back.reverse := by rw [← same, List.reverse_reverse]
  clear same
  induction back with
  | nil => rfl
  | cons name back ih =>
    by_cases slash : name = ""
    · rw [List.dropWhile_cons_of_pos (by simpa using slash), ih, List.reverse_cons, resolve_append]
      simp [resolve, slash]
    · rw [List.dropWhile_cons_of_neg (by simpa using slash)]

/-- Without steps back, names only lead further down. -/
theorem prefix_resolve {names : List String} (onward : ".." ∉ names) (place : Path) :
    place <+: resolve place names := by
  induction names generalizing place with
  | nil => exact List.prefix_rfl
  | cons name rest ih =>
    simp only [List.mem_cons, not_or] at onward
    unfold resolve
    split
    · exact ih onward.2 place
    · rw [if_neg (Ne.symm onward.1)]
      exact (List.prefix_append place [name]).trans (ih onward.2 _)

theorem pieces_of_not_mem {text : List Char} (plain : '/' ∉ text) : pieces text = [text] := by
  induction text with
  | nil => rfl
  | cons c rest ih =>
    simp only [List.mem_cons, not_or] at plain
    rw [pieces, if_neg (Ne.symm plain.1), ih plain.2]

/-- A text with names in it, none of which is a step back. -/
structure Straight (text : String) : Prop where
  full : text ≠ ""
  onward : ".." ∉ names text

/-! ## The texts above a text -/

theorem not_mem_of_mem_pieces {text : List Char} : ∀ p ∈ pieces text, '/' ∉ p := by
  induction text with
  | nil => simp [pieces]
  | cons c rest ih =>
    rw [pieces]
    split
    · simpa using ih
    · next other =>
      obtain ⟨p, ps, some_⟩ := List.exists_cons_of_ne_nil (pieces_ne_nil rest)
      rw [some_] at ih ⊢
      simp only [List.mem_cons, forall_eq_or_imp] at ih ⊢
      refine ⟨?_, ih.2⟩
      simpa using ⟨Ne.symm other, ih.1⟩

theorem names_text {path : Path} (full : path ≠ []) (plain : ∀ name ∈ path, '/' ∉ name.toList) :
    names (text path) = path := by
  induction path with
  | nil => exact absurd rfl full
  | cons name rest ih =>
    have first := plain name List.mem_cons_self
    cases rest with
    | nil => simp [text, names, pieces_of_not_mem first]
    | cons next rest =>
      have later := ih (List.cons_ne_nil _ _) fun n mem => plain n (List.mem_cons_of_mem _ mem)
      have split_ : (text (name :: next :: rest)).toList =
          name.toList ++ '/' :: (text (next :: rest)).toList := by
        simp [text, String.toList_append]
      rw [names, split_, pieces_slash, pieces_of_not_mem first, List.map_append]
      change _ ++ names (text (next :: rest)) = _
      rw [later]
      simp

/-- What is above a text: names that the text begins with, the last of which is not empty. -/
theorem mem_stems {back stem : List String} (mem : stem ∈ stems back) :
    stem <:+ back ∧ ∃ name above, stem = name :: above ∧ name ≠ "" := by
  induction back with
  | nil => cases mem
  | cons name above ih =>
    rw [stems] at mem
    split at mem
    · exact ⟨(ih mem).1.trans (List.suffix_cons name above), (ih mem).2⟩
    · next counts =>
      rcases List.mem_cons.1 mem with rfl | mem
      · exact ⟨List.suffix_rfl, name, above, rfl, fun empty => counts (.inl empty)⟩
      · exact ⟨(ih mem).1.trans (List.suffix_cons name above), (ih mem).2⟩

/-- A text made of names that another text begins with has just these names. -/
theorem names_of_mem_stems {text : String} {front stem : List String} (begins : front <+: names text)
    (mem : stem ∈ stems front.reverse) :
    names (Path.text stem.reverse) <+: names text ∧ Path.text stem.reverse ≠ "" := by
  obtain ⟨suffix, name, above, rfl, filled⟩ := mem_stems mem
  have inText : (name :: above).reverse <+: names text := by
    refine List.IsPrefix.trans ?_ begins
    rw [← List.reverse_suffix, List.reverse_reverse]
    exact suffix
  have read : names (Path.text (name :: above).reverse) = (name :: above).reverse := by
    refine names_text (by simp) fun n mem => ?_
    obtain ⟨piece, inPieces, rfl⟩ := List.mem_map.1 (inText.subset mem)
    rw [String.toList_ofList]
    exact not_mem_of_mem_pieces piece inPieces
  refine ⟨by rw [read]; exact inText, fun empty => filled ?_⟩
  rw [empty] at read
  have last := congrArg List.getLast? read
  simpa [names, pieces] using last.symm

/-- What is above a text consists of names that the text begins with. -/
theorem mem_parents {text path : String} (mem : path ∈ parents text) :
    names path <+: names text ∧ path ≠ "" := by
  obtain ⟨stem, inTail, rfl⟩ := List.mem_map.1 mem
  exact names_of_mem_stems List.prefix_rfl (List.mem_of_mem_tail inTail)

/-- The texts above a name in a directory are made of names that the directory's
text begins with. -/
theorem mem_parents_join {base name path : String} (full : base ≠ "")
    (plain : pieces name.toList = [name.toList]) (own : name ≠ "" ∧ name ≠ ".")
    (mem : path ∈ parents (join base name)) :
    names path <+: names base ∧ path ≠ "" := by
  obtain ⟨front, joined, same⟩ := names_join full plain
  unfold parents at mem
  rw [joined, List.reverse_append, List.reverse_singleton, List.singleton_append, stems,
    if_neg (by simp [own]), List.tail_cons] at mem
  obtain ⟨stem, inStems, rfl⟩ := List.mem_map.1 mem
  refine names_of_mem_stems ?_ inStems
  rcases same with same | same
  · exact same ▸ List.prefix_rfl
  · rw [same]
    exact List.prefix_append ..

end Path

namespace Disk

/-- The place that a path text leads to, if it leads anywhere. -/
def place (disk : Disk) (text : String) : Path :=
  Path.resolve ((disk.start? text).getD []) (Path.names text)

variable {disk disk' disk'' : Disk}

theorem place_congr (same : disk'.workDir = disk.workDir) (text : String) :
    disk'.place text = disk.place text := by
  unfold place start?
  rw [same]

theorem step_eq_resolve {here next : Path} {name : String} (h : disk.step here name = .ok next) :
    next = Path.resolve here [name] := by
  unfold step at h
  split at h
  · cases h
  · cases h
  · simp only [Path.resolve]
    split at h
    · next stay =>
      rw [if_pos stay]
      exact (Except.ok.inj h).symm
    · next moves =>
      rw [if_neg moves]
      split at h
      · next back =>
        rw [if_pos back]
        exact (Except.ok.inj h).symm
      · next on =>
        rw [if_neg on]
        split at h
        · exact (Except.ok.inj h).symm
        · cases h

theorem follow_eq_resolve {here last : Path} {names : List String}
    (h : disk.follow here names = .ok last) : last = Path.resolve here names := by
  induction names generalizing here with
  | nil => exact (Except.ok.inj h).symm
  | cons name rest ih =>
    unfold follow at h
    split at h
    · cases h
    · next next stepped =>
      rw [ih h, step_eq_resolve stepped, ← Path.resolve_append]
      rfl

theorem way_eq_ok {text : String} {here : Path} {names : List String}
    (h : disk.way text = .ok (here, names)) :
    here = (disk.start? text).getD [] ∧ names = Path.names text ∧ Path.isUsable text = true := by
  unfold way at h
  split at h
  · next usable =>
    split at h
    · cases h
    · next start =>
      cases h
      exact ⟨by rw [start]; rfl, rfl, usable⟩
  · cases h

theorem eq_place_of_locate {text : String} {path : Path} (h : disk.locate text = .ok path) :
    path = disk.place text := by
  unfold locate at h
  split at h
  · cases h
  · next here names way =>
    obtain ⟨rfl, rfl, -⟩ := way_eq_ok way
    exact follow_eq_resolve h

theorem isUsable_of_locate {text : String} {path : Path} (h : disk.locate text = .ok path) :
    Path.isUsable text = true := by
  unfold locate at h
  split at h
  · cases h
  · next way => exact (way_eq_ok way).2.2

theorem entryAt?_place_of_entry? {text : String} {entry : DiskEntry}
    (h : disk.entry? text = some entry) : disk.entryAt? (disk.place text) = some entry := by
  obtain ⟨path, located, there⟩ := entry?_eq_some.1 h
  rw [← eq_place_of_locate located]
  exact there

theorem entryAt?_place_of_isDirectory {text : String} (h : disk.isDirectory text = true) :
    disk.entryAt? (disk.place text) = some .directory :=
  entryAt?_place_of_entry? (of_decide_eq_true h)

theorem start?_join {base name : String} (full : base ≠ "") :
    disk.start? (Path.join base name) = disk.start? base := by
  obtain ⟨more, same⟩ := Path.join_eq_append base name
  obtain ⟨c, cs, some_⟩ := List.exists_cons_of_ne_nil fun none =>
    full (String.toList_eq_nil_iff.1 none)
  simp [start?, same, String.toList_append, some_]

/-- A text starts from the root if its first name is empty. -/
theorem start?_eq {text : String} (full : text ≠ "") : disk.start? text =
    some (if (Path.names text).head? = some "" then [] else disk.workDir) := by
  obtain ⟨c, cs, some_⟩ := List.exists_cons_of_ne_nil fun none =>
    full (String.toList_eq_nil_iff.1 none)
  unfold start? Path.names
  rw [some_, Path.pieces]
  by_cases slash : c = '/'
  · simp [slash]
  · obtain ⟨p, ps, first⟩ := List.exists_cons_of_ne_nil (Path.pieces_ne_nil cs)
    simp [slash, first]

/-- Without steps back, a text leads to somewhere above where it leads with more names. -/
theorem place_prefix {base path : String} (straight : Path.Straight base) (full : path ≠ "")
    (begins : Path.names path <+: Path.names base) : disk.place path <+: disk.place base := by
  have onward := straight.onward
  obtain ⟨more, same⟩ := begins
  obtain ⟨name, names, first⟩ := List.exists_cons_of_ne_nil (l := Path.names path)
    (by simp [Path.names, Path.pieces_ne_nil])
  have start : disk.start? path = disk.start? base := by
    rw [start?_eq full, start?_eq straight.full, ← same, first]
    rfl
  unfold place
  rw [start, ← same, Path.resolve_append]
  rw [← same] at onward
  exact Path.prefix_resolve (fun mem => onward (List.mem_append_right _ mem)) _

/-- A plain name after a path text leads one step down from there. -/
theorem place_join {base name : String} (full : base ≠ "")
    (plain : Path.pieces name.toList = [name.toList]) :
    disk.place (Path.join base name) = Path.resolve (disk.place base) [name] := by
  obtain ⟨front, joined, names⟩ := Path.names_join full plain
  have same : disk.place base = Path.resolve ((disk.start? base).getD []) front := by
    unfold place
    rcases names with same | same
    · rw [same]
    · rw [same, Path.resolve_append]
      rfl
  rw [same]
  unfold place
  rw [start?_join full, joined, Path.resolve_append]

/-! ## Something in a directory -/

theorem full_of_isDirectory {text : String} (there : disk.isDirectory text = true) : text ≠ "" := by
  rintro rfl
  cases there

section

variable {dir name : String} (plain : Path.pieces name.toList = [name.toList])
  (own : name ≠ "" ∧ name ≠ "." ∧ name ≠ "..") (there : disk.isDirectory dir = true)

include plain own there

theorem place_join_of_isDirectory : disk.place (Path.join dir name) = disk.place dir ++ [name] := by
  rw [place_join (full_of_isDirectory there) plain]
  simp [Path.resolve, own]

/-- The way to a name in a directory that is there leads on from the directory. -/
theorem way_join (usable : Path.isUsable (Path.join dir name) = true) :
    ∃ here names, disk.way (Path.join dir name) = .ok (here, names) ∧
      Path.dropSlashes names = names ∧
      disk.follow here names = if name.utf8ByteSize ≤ Path.maxNameSize then
        .ok (disk.place dir ++ [name]) else .error .unusable := by
  have full := full_of_isDirectory there
  obtain ⟨path, located, directory⟩ := entry?_eq_some.1 (of_decide_eq_true there)
  obtain rfl := eq_place_of_locate located
  obtain ⟨front, joined, same⟩ := Path.names_join full plain
  unfold locate at located
  split at located
  · cases located
  · next here names way =>
    obtain ⟨rfl, rfl, -⟩ := way_eq_ok way
    have reached := (follow_front same directory).2 located
    refine ⟨(disk.start? dir).getD [], front ++ [name], ?_, ?_, ?_⟩
    · rw [Disk.way, if_pos usable, start?_join full, start?_eq full, joined]
      rfl
    · simp [Path.dropSlashes, own]
    · rw [follow_append_of_ok reached, follow_singleton]
      simp only [step, directory, own, or_self, if_false]

theorem locate_join : disk.locate (Path.join dir name) =
    if Path.isUsable (Path.join dir name) = true ∧ name.utf8ByteSize ≤ Path.maxNameSize then
      .ok (disk.place dir ++ [name]) else .error .unusable := by
  by_cases usable : Path.isUsable (Path.join dir name) = true
  · obtain ⟨here, names, way, -, reached⟩ := way_join plain own there usable
    simp only [locate, way, reached, usable, true_and]
  · simp only [locate, Disk.way, usable, false_and, if_false, Bool.false_eq_true]

/-- In a directory that is there, a directory is made under a name unless that is taken. -/
theorem createDirectories_join : disk.createDirectories (Path.join dir name) =
    if Path.isUsable (Path.join dir name) = true ∧ name.utf8ByteSize ≤ Path.maxNameSize then
      match disk.entryAt? (disk.place dir ++ [name]) with
      | none => (true, disk.link (disk.place dir ++ [name]) .directory)
      | some entry => (decide (entry = .directory), disk)
    else (false, disk) := by
  have located := locate_join plain own there
  have full : (Path.join dir name).isEmpty = false := by
    simpa using Path.join_ne (full_of_isDirectory there) name
  by_cases usable : Path.isUsable (Path.join dir name) = true
  · obtain ⟨here, names, way, bare, reached⟩ := way_join plain own there usable
    unfold createDirectories makeDirectories makeDirectory isDirectory Disk.entry?
    rw [full, located, way]
    dsimp only
    rw [bare, reached]
    by_cases short : name.utf8ByteSize ≤ Path.maxNameSize
    · cases taken : disk.entryAt? (disk.place dir ++ [name]) <;> simp [usable, short, taken]
    · simp [short]
  · unfold createDirectories makeDirectories makeDirectory isDirectory Disk.entry?
    rw [full, located, Disk.way, if_neg usable]
    simp [usable]

end

/-! ## New names -/

theorem Extends.refl (disk : Disk) : disk.Extends disk := ⟨rfl, fun _ _ h => h⟩

theorem Extends.trans (h : disk.Extends disk') (h' : disk'.Extends disk'') :
    disk.Extends disk'' :=
  ⟨h'.workDir.trans h.workDir, fun p e there => h'.entries p e (h.entries p e there)⟩

/-- Two disks with the same names. -/
structure SameNames (disk disk' : Disk) : Prop where
  workDir : disk'.workDir = disk.workDir
  entries : disk'.entries = disk.entries

namespace SameNames

theorem refl (disk : Disk) : disk.SameNames disk := ⟨rfl, rfl⟩

theorem trans {disk'' : Disk} (h : disk.SameNames disk') (h' : disk'.SameNames disk'') :
    disk.SameNames disk'' :=
  ⟨h'.workDir.trans h.workDir, h'.entries.trans h.entries⟩

theorem entryAt? (h : disk.SameNames disk') (p : Path) : disk'.entryAt? p = disk.entryAt? p := by
  unfold Disk.entryAt?
  rw [h.entries]

theorem more (h : disk.SameNames disk') : disk.Extends disk' := by
  refine ⟨h.workDir, fun p entry there => ?_⟩
  rw [h.entryAt?]
  exact there

theorem follow (h : disk.SameNames disk') (here : Path) (names : List String) :
    disk'.follow here names = disk.follow here names := by
  induction names generalizing here with
  | nil => rfl
  | cons name rest ih => simp only [Disk.follow, Disk.step, h.entryAt?, ih]

theorem locate (h : disk.SameNames disk') (text : String) :
    disk'.locate text = disk.locate text := by
  have way : disk'.way text = disk.way text := by
    unfold Disk.way start?
    rw [h.workDir]
  unfold Disk.locate
  rw [way]
  simp only [h.follow]

theorem subdirectories (h : disk.SameNames disk') (text : String) :
    disk'.subdirectories text = disk.subdirectories text := by
  unfold Disk.subdirectories
  rw [h.locate, h.entries]

end SameNames

theorem entryAt?_link_of_ne {p path : Path} (ne : p ≠ path) (entry : DiskEntry) :
    (disk.link path entry).entryAt? p = disk.entryAt? p := by
  unfold entryAt?
  by_cases root : p = []
  · rw [if_pos root, if_pos root]
  · have other : [(path, entry)].find? (fun e => e.1 = p) = none := by
      simpa using Ne.symm ne
    rw [if_neg root, if_neg root, link, List.find?_append, other, Option.or_none]

/-- A disk on which at most some places have been given a name. -/
structure Linked (places : List Path) (disk disk' : Disk) : Prop where
  more : disk.Extends disk'
  only : ∀ p, p ∉ places → disk'.entryAt? p = disk.entryAt? p

namespace Linked

variable {places places' : List Path}

theorem refl (places : List Path) (disk : Disk) : Linked places disk disk :=
  ⟨.refl disk, fun _ _ => rfl⟩

theorem trans (h : Linked places disk disk') (h' : Linked places disk' disk'') :
    Linked places disk disk'' :=
  ⟨h.more.trans h'.more, fun p other => (h'.only p other).trans (h.only p other)⟩

theorem mono (h : Linked places disk disk') (more : places ⊆ places') :
    Linked places' disk disk' :=
  ⟨h.more, fun p other => h.only p fun mem => other (more mem)⟩

end Linked

theorem linked_link (path : Path) (entry : DiskEntry) :
    Linked [path] disk (disk.link path entry) :=
  ⟨extends_link disk path entry,
    fun _ other => entryAt?_link_of_ne (by simpa using other) entry⟩

/-! ## Making directories -/

theorem makeDirectory_eq_ok {text : String} (h : disk.makeDirectory text = .ok disk') :
    disk.entryAt? (disk.place text) = none ∧
      disk' = disk.link (disk.place text) .directory := by
  unfold makeDirectory at h
  split at h
  · cases h
  · next here names way =>
    obtain ⟨rfl, rfl, -⟩ := way_eq_ok way
    split at h
    · cases h
    · next path followed =>
      have same : path = disk.place text := by
        rw [follow_eq_resolve followed, Path.resolve_dropSlashes]
        rfl
      rw [same] at h
      split at h
      · cases h
      · next free =>
        exact ⟨by simpa using free, (Except.ok.inj h).symm⟩

theorem linked_makeDirectory {text : String} (h : disk.makeDirectory text = .ok disk') :
    Linked [disk.place text] disk disk' := by
  rw [(makeDirectory_eq_ok h).2]
  exact linked_link ..

theorem linked_makeDirectories {texts : List String} {answer : Bool}
    (h : makeDirectories texts disk = (answer, disk')) :
    Linked (texts.map disk.place) disk disk' := by
  induction texts generalizing answer disk disk' with
  | nil =>
    cases h
    exact .refl _ disk
  | cons text above ih =>
    have one {disk' : Disk} (made : disk.makeDirectory text = .ok disk') :
        Linked ((text :: above).map disk.place) disk disk' :=
      (linked_makeDirectory made).mono (by simp)
    unfold makeDirectories at h
    split at h
    · next made =>
      cases h
      exact one made
    · rcases up : makeDirectories above disk with ⟨answer₁, disk₁⟩
      have first : Linked ((text :: above).map disk.place) disk disk₁ :=
        (ih up).mono (List.subset_cons_self _ _)
      rw [up] at h
      cases answer₁ with
      | false =>
        cases h
        exact first
      | true =>
        dsimp only at h
        split at h
        · next made =>
          cases h
          have last := linked_makeDirectory made
          rw [place_congr first.more.workDir] at last
          exact first.trans (last.mono (by simp))
        · cases h
          exact first
    · cases h
      exact .refl _ disk

/-- Slashes at the end of a path may be left out. -/
theorem follow_of_dropSlashes {place last : Path} {names : List String}
    (h : disk.follow place (Path.dropSlashes names) = .ok last)
    (directory : disk.entryAt? last = some .directory) : disk.follow place names = .ok last := by
  unfold Path.dropSlashes at h
  generalize same : names.reverse = back at h
  obtain rfl : names = back.reverse := by rw [← same, List.reverse_reverse]
  clear same
  induction back with
  | nil => exact h
  | cons name back ih =>
    by_cases slash : name = ""
    · rw [List.dropWhile_cons_of_pos (by simpa using slash)] at h
      rw [List.reverse_cons, follow_append, slash]
      exact ⟨last, ih h, by rw [follow_singleton, step_empty directory]⟩
    · rw [List.dropWhile_cons_of_neg (by simpa using slash)] at h
      exact h

theorem isDirectory_of_makeDirectory {text : String} (h : disk.makeDirectory text = .ok disk') :
    disk'.isDirectory text = true := by
  have more := (linked_makeDirectory h).more
  obtain ⟨free, same⟩ := makeDirectory_eq_ok h
  have there : disk'.entryAt? (disk.place text) = some .directory := by
    rw [same]
    exact entryAt?_link free .directory
  unfold makeDirectory at h
  split at h
  · cases h
  · next here names way =>
    split at h
    · cases h
    · next path followed =>
      obtain ⟨rfl, rfl, -⟩ := way_eq_ok way
      have at_ : path = disk.place text := by
        rw [follow_eq_resolve followed, Path.resolve_dropSlashes]
        rfl
      rw [at_] at followed
      refine decide_eq_true (entry?_eq_some.2 ⟨disk.place text, ?_, there⟩)
      simp only [locate, more.way, way]
      exact follow_of_dropSlashes (more.follow followed) there

/-- If the first of some directories cannot be made, names are given at most to
the others; otherwise it is there in the end. -/
theorem makeDirectories_cases {text : String} {above : List String} {answer : Bool}
    (h : makeDirectories (text :: above) disk = (answer, disk')) :
    (answer = false ∧ Linked (above.map disk.place) disk disk') ∨
      (answer = true ∧ disk'.isDirectory text = true) := by
  unfold makeDirectories at h
  split at h
  · next made =>
    cases h
    exact .inr ⟨rfl, isDirectory_of_makeDirectory made⟩
  · rcases up : makeDirectories above disk with ⟨answer₁, disk₁⟩
    have first := linked_makeDirectories up
    rw [up] at h
    cases answer₁ with
    | false =>
      cases h
      exact .inl ⟨rfl, first⟩
    | true =>
      dsimp only at h
      split at h
      · next made =>
        cases h
        exact .inr ⟨rfl, isDirectory_of_makeDirectory made⟩
      · cases h
        cases there : disk'.isDirectory text with
        | false => exact .inl ⟨rfl, first⟩
        | true => exact .inr ⟨rfl, rfl⟩
  · cases h
    cases there : disk.isDirectory text with
    | false => exact .inl ⟨rfl, .refl _ disk⟩
    | true => exact .inr ⟨rfl, rfl⟩

theorem createDirectories_cases {text : String} {answer : Bool} (full : text ≠ "")
    (h : disk.createDirectories text = (answer, disk')) :
    Linked (disk.place text :: (Path.parents text).map disk.place) disk disk' ∧
      ((answer = false ∧ Linked ((Path.parents text).map disk.place) disk disk') ∨
        (answer = true ∧ disk'.isDirectory text = true)) := by
  unfold createDirectories at h
  rw [if_neg (by simpa using full)] at h
  exact ⟨linked_makeDirectories h, makeDirectories_cases h⟩

theorem extends_createDirectories {text : String} {answer : Bool}
    (h : disk.createDirectories text = (answer, disk')) : disk.Extends disk' := by
  by_cases full : text = ""
  · unfold createDirectories at h
    rw [if_pos (by simp [full])] at h
    cases h
    exact .refl disk
  · exact (createDirectories_cases full h).1.more

/-! ## Opening files -/

/-- Opening a file finds it, or gives its place a name. -/
theorem openFile_cases {text : String} {id : FileId} (h : disk.openFile text = some (id, disk')) :
    disk.entry? text = some (.file id) ∧ disk' = disk ∨
      disk.entryAt? (disk.place text) = none ∧ id = disk.files.length ∧
        disk' = { disk with files := disk.files ++ [[]] }.link (disk.place text) (.file id) := by
  unfold openFile at h
  split at h
  · cases h
  · next path located =>
    split at h
    · next there =>
      cases h
      exact .inl ⟨entry?_eq_some.2 ⟨path, located, there⟩, rfl⟩
    · cases h
    · next free =>
      have same := eq_place_of_locate located
      split at h
      · cases h
        rw [← same]
        exact .inr ⟨free, rfl, rfl⟩
      · cases h

theorem linked_openFile {text : String} {id : FileId} (h : disk.openFile text = some (id, disk')) :
    Linked [disk.place text] disk disk' := by
  rcases openFile_cases h with ⟨-, rfl⟩ | ⟨-, -, rfl⟩
  · exact .refl _ disk'
  · have grown : Linked [disk.place text] disk { disk with files := disk.files ++ [[]] } :=
      ⟨⟨rfl, fun _ _ there => there⟩, fun _ _ => rfl⟩
    exact grown.trans (linked_link ..)

/-- In a directory that is there, a file can be opened under a name that is free. -/
theorem isSome_openFile_join {dir name : String} (plain : Path.pieces name.toList = [name.toList])
    (own : name ≠ "" ∧ name ≠ "." ∧ name ≠ "..") (short : name.utf8ByteSize ≤ Path.maxNameSize)
    (usable : Path.isUsable (Path.join dir name) = true) (there : disk.isDirectory dir = true)
    (free : disk.entryAt? (disk.place dir ++ [name]) = none) :
    (disk.openFile (Path.join dir name)).isSome = true := by
  have directory := entryAt?_place_of_isDirectory there
  have found := locate_join plain own there
  rw [if_pos ⟨usable, short⟩] at found
  simp only [openFile, found, free, List.dropLast_concat, directory, if_true, Option.isSome_some]

/-! ## Removing trees -/

theorem removeTree_eq_some {text : String} (h : disk.removeTree text = some disk') :
    disk'.workDir = disk.workDir ∧ ∀ p, disk'.entryAt? p =
      if disk.place text <+: p then none else disk.entryAt? p := by
  unfold removeTree at h
  split at h
  · cases h
  · next path located =>
    obtain rfl := eq_place_of_locate located
    split at h
    · cases h
    · next kept =>
      cases h
      simp only [not_or] at kept
      refine ⟨rfl, fun p => ?_⟩
      unfold entryAt?
      by_cases root : p = []
      · subst root
        have below : ¬ disk.place text <+: [] := fun under => kept.1 (List.prefix_nil.1 under)
        rw [if_pos rfl, if_neg below, if_pos rfl]
      · rw [if_neg root, List.find?_filter]
        by_cases under : disk.place text <+: p
        · rw [if_pos under, Option.map_eq_none_iff, List.find?_eq_none]
          intro e _
          simp only [Bool.not_eq_true', decide_eq_true_eq, not_and]
          rintro other rfl
          rw [← List.isPrefixOf_iff_prefix, other] at under
          cases under
        · rw [if_neg under, if_neg root, ← List.head?_filter, ← List.head?_filter]
          have same (e : Path × DiskEntry) :
              decide ((!(disk.place text).isPrefixOf e.1) = true ∧ decide (e.1 = p) = true) =
                decide (e.1 = p) := by
            by_cases own : e.1 = p
            · have apart : (disk.place text).isPrefixOf p = false := by
                rw [← List.isPrefixOf_iff_prefix] at under
                exact Bool.eq_false_iff.2 under
              simp [own, apart]
            · simp [own]
          simp only [same]

end Disk

end TrieStorage

import TrieStorage.Node.Codec
import TrieStorage.Proofs.Bytes.Layout

/-!
# Reading nodes

A byte string reads as a node exactly if it begins with the stored form of that node, and no
stored form begins with another one.  Everything else is refused: an empty byte string as empty,
one that starts with an unknown tag for the tag, and all others because they end too early.
`decode_exact` says so.
-/

namespace TrieStorage

namespace Node

open Layout

/-- Whether every length fits into the number that is written in front. -/
def Fits : Node → Prop
  | .branch children => children.length < 2 ^ 64
  | .extension segment _ => segment.length < 2 ^ 64
  | .leaf entry => entry.key.length < 2 ^ 64 ∧ entry.value.length < 2 ^ 64

instance : DecidablePred Fits
  | .branch _ => inferInstanceAs (Decidable (_ < _))
  | .extension _ _ => inferInstanceAs (Decidable (_ < _))
  | .leaf _ => inferInstanceAs (Decidable (_ ∧ _))

theorem length_encode (node : Node) : 4 ≤ node.encode.length := by
  cases node <;> simp [encode]

/-! ## Reading what was written -/

theorem readHash_append (hash : NodeHash) (rest : Bytes) :
    readHash (hash.bytes ++ rest) = .ok (hash, rest) := by
  have enough : 32 ≤ (hash.bytes ++ rest).length := by
    rw [List.length_append, hash.length_bytes]
    exact Nat.le_add_right _ _
  unfold readHash
  rw [dif_pos enough]
  congr 2
  · exact NodeHash.ext (List.take_left' hash.length_bytes)
  · exact List.drop_left' hash.length_bytes

theorem readHashes_append (hashes : List NodeHash) (rest : Bytes) :
    readHashes hashes.length (hashes.flatMap NodeHash.bytes ++ rest) = .ok (hashes, rest) := by
  induction hashes with
  | nil => rfl
  | cons hash hashes ih =>
    rw [List.length_cons, List.flatMap_cons, List.append_assoc]
    simp only [readHashes, readHash_append, ih]

/-- A node reads back, whatever follows it. -/
theorem read_encode {node : Node} (fits : node.Fits) (rest : Bytes) :
    read (node.encode ++ rest) = .ok (node, rest) := by
  cases node with
  | branch children =>
    have count : readNumber 8 (LittleEndian.encode 8 children.length ++
        (children.flatMap NodeHash.bytes ++ rest)) = .ok (children.length, _) :=
      readNumber_encode fits _
    simp only [read, encode, List.append_assoc, readTag_writeTag (show 0 < 2 ^ 32 by decide), bind,
      Except.bind, readBranch, count, readHashes_append, pure, Except.pure]
  | extension segment child =>
    simp only [read, encode, List.append_assoc, readTag_writeTag (show 1 < 2 ^ 32 by decide), bind,
      Except.bind, readExtension, readBytes_writeBytes fits, readHash_append, pure, Except.pure]
  | leaf entry =>
    obtain ⟨keyFits, valueFits⟩ := fits
    simp only [read, encode, List.append_assoc, readTag_writeTag (show 2 < 2 ^ 32 by decide), bind,
      Except.bind, readLeaf, readBytes_writeBytes keyFits, readBytes_writeBytes valueFits, pure,
      Except.pure]

/-! ## What can be read was written -/

theorem eq_of_readHash {bytes rest : Bytes} {hash : NodeHash}
    (h : readHash bytes = .ok (hash, rest)) : bytes = hash.bytes ++ rest := by
  unfold readHash at h
  split at h
  · simp only [Except.ok.injEq, Prod.mk.injEq] at h
    obtain ⟨rfl, rfl⟩ := h
    exact (List.take_append_drop 32 bytes).symm
  · cases h

theorem eq_of_readHashes {count : Nat} {bytes rest : Bytes} {hashes : List NodeHash}
    (h : readHashes count bytes = .ok (hashes, rest)) :
    bytes = hashes.flatMap NodeHash.bytes ++ rest ∧ hashes.length = count := by
  induction count generalizing bytes hashes with
  | zero =>
    cases h
    exact ⟨rfl, rfl⟩
  | succ count ih =>
    unfold readHashes at h
    split at h
    · cases h
    · next hash rest₁ first =>
      split at h
      · cases h
      · next hashes' rest₂ others =>
        cases h
        obtain ⟨same, length⟩ := ih others
        refine ⟨?_, congrArg (· + 1) length⟩
        rw [eq_of_readHash first, same, List.flatMap_cons, List.append_assoc]

theorem eq_of_readBranch {bytes rest : Bytes} {node : Node}
    (h : readBranch bytes = .ok (node, rest)) :
    node.Fits ∧ writeTag 0 ++ bytes = node.encode ++ rest := by
  unfold readBranch at h
  obtain ⟨⟨count, rest₁⟩, number, h⟩ := bind_eq_ok h
  obtain ⟨⟨children, rest₂⟩, hashes, h⟩ := bind_eq_ok h
  cases h
  obtain ⟨same, rfl⟩ := eq_of_readHashes hashes
  refine ⟨lt_of_readNumber number, ?_⟩
  rw [eq_of_readNumber number, same]
  simp [encode]

theorem eq_of_readExtension {bytes rest : Bytes} {node : Node}
    (h : readExtension bytes = .ok (node, rest)) :
    node.Fits ∧ writeTag 1 ++ bytes = node.encode ++ rest := by
  unfold readExtension at h
  obtain ⟨⟨segment, rest₁⟩, first, h⟩ := bind_eq_ok h
  obtain ⟨⟨child, rest₂⟩, second, h⟩ := bind_eq_ok h
  cases h
  refine ⟨lt_of_readBytes first, ?_⟩
  rw [eq_of_readBytes first, eq_of_readHash second]
  simp [encode]

theorem eq_of_readLeaf {bytes rest : Bytes} {node : Node}
    (h : readLeaf bytes = .ok (node, rest)) :
    node.Fits ∧ writeTag 2 ++ bytes = node.encode ++ rest := by
  unfold readLeaf at h
  obtain ⟨⟨key, rest₁⟩, first, h⟩ := bind_eq_ok h
  obtain ⟨⟨value, rest₂⟩, second, h⟩ := bind_eq_ok h
  cases h
  refine ⟨⟨lt_of_readBytes first, lt_of_readBytes second⟩, ?_⟩
  rw [eq_of_readBytes first, eq_of_readBytes second]
  simp [encode]

/-- What reads as a node starts with its stored form. -/
theorem eq_of_read {bytes rest : Bytes} {node : Node} (h : read bytes = .ok (node, rest)) :
    node.Fits ∧ bytes = node.encode ++ rest := by
  unfold read at h
  obtain ⟨⟨tag, rest₁⟩, number, h⟩ := bind_eq_ok h
  rw [eq_of_readNumber number]
  dsimp only at h
  split at h
  · exact eq_of_readBranch h
  · exact eq_of_readExtension h
  · exact eq_of_readLeaf h
  · cases h

/-! ## What cannot be read -/

theorem error_of_readHash {bytes : Bytes} {e : LayoutError} (h : readHash bytes = .error e) :
    e = .unexpectedEnd := by
  unfold readHash at h
  split at h <;> cases h
  rfl

theorem error_of_readHashes {count : Nat} {bytes : Bytes} {e : LayoutError}
    (h : readHashes count bytes = .error e) : e = .unexpectedEnd := by
  induction count generalizing bytes with
  | zero => cases h
  | succ count ih =>
    unfold readHashes at h
    split at h
    · next failed =>
      cases h
      exact error_of_readHash failed
    · split at h
      · next failed =>
        cases h
        exact ih failed
      · cases h

theorem error_of_readBranch {bytes : Bytes} {e : LayoutError} (h : readBranch bytes = .error e) :
    e = .unexpectedEnd := by
  unfold readBranch at h
  rcases bind_eq_error h with failed | ⟨⟨count, rest⟩, -, h⟩
  · exact (error_of_readNumber failed).1
  · rcases bind_eq_error h with failed | ⟨_, -, h⟩
    · exact error_of_readHashes failed
    · cases h

theorem error_of_readExtension {bytes : Bytes} {e : LayoutError}
    (h : readExtension bytes = .error e) : e = .unexpectedEnd := by
  unfold readExtension at h
  rcases bind_eq_error h with failed | ⟨⟨segment, rest⟩, -, h⟩
  · exact error_of_readBytes failed
  · rcases bind_eq_error h with failed | ⟨_, -, h⟩
    · exact error_of_readHash failed
    · cases h

theorem error_of_readLeaf {bytes : Bytes} {e : LayoutError} (h : readLeaf bytes = .error e) :
    e = .unexpectedEnd := by
  unfold readLeaf at h
  rcases bind_eq_error h with failed | ⟨⟨key, rest⟩, -, h⟩
  · exact error_of_readBytes failed
  · rcases bind_eq_error h with failed | ⟨_, -, h⟩
    · exact error_of_readBytes failed
    · cases h

/-- The number that the first four bytes stand for. -/
def leadingTag (bytes : Bytes) : Nat := LittleEndian.decode (bytes.take 4)

/-- A tag is there, and it is that of no kind of node. -/
def TagUnknown (bytes : Bytes) : Prop := 4 ≤ bytes.length ∧ 3 ≤ leadingTag bytes

instance (bytes : Bytes) : Decidable (TagUnknown bytes) := inferInstanceAs (Decidable (_ ∧ _))

theorem read_of_tagUnknown {bytes : Bytes} (unknown : TagUnknown bytes) :
    read bytes = .error (.unknownTag (leadingTag bytes) 3) := by
  obtain ⟨enough, large⟩ := unknown
  simp only [read, readNumber_of_le enough, bind, Except.bind]
  unfold leadingTag at large ⊢
  split
  · omega
  · omega
  · omega
  · rfl

theorem error_of_read {bytes : Bytes} {e : LayoutError} (known : ¬ TagUnknown bytes)
    (h : read bytes = .error e) : e = .unexpectedEnd := by
  unfold read at h
  rcases bind_eq_error h with failed | ⟨⟨tag, rest⟩, number, h⟩
  · exact (error_of_readNumber failed).1
  · dsimp only at h
    split at h
    · exact error_of_readBranch h
    · exact error_of_readExtension h
    · exact error_of_readLeaf h
    · next not0 not1 not2 =>
      refine absurd ?_ known
      have enough : 4 ≤ bytes.length := by
        rw [eq_of_readNumber number, List.length_append, LittleEndian.length_encode]
        exact Nat.le_add_right _ _
      rw [readNumber_of_le enough] at number
      cases number
      have other : leadingTag bytes ≠ 0 ∧ leadingTag bytes ≠ 1 ∧ leadingTag bytes ≠ 2 :=
        ⟨not0, not1, not2⟩
      exact ⟨enough, by omega⟩

/-! ## What reading comes to -/

/-- The two messages part at their second letter. -/
theorem message_ne (tag cases : Nat) :
    (LayoutError.unknownTag tag cases).message ≠ LayoutError.unexpectedEnd.message := by
  have lead : "invalid value: integer `".toList =
      'i' :: 'n' :: "valid value: integer `".toList := by decide
  have left : (LayoutError.unknownTag tag cases).message.toList[1]? = some 'n' := by
    unfold LayoutError.message
    dsimp only
    rw [String.toList_append, String.toList_append, String.toList_append, lead]
    rfl
  have right : LayoutError.unexpectedEnd.message.toList[1]? = some 'o' := by decide
  intro same
  rw [same, right] at left
  cases left

theorem decode_eq_ok_iff {bytes : Bytes} {node : Node} :
    decode bytes = .ok node ↔ node.Fits ∧ node.encode <+: bytes := by
  unfold decode
  constructor
  · intro h
    split at h
    · cases h
    · split at h
      · next rest found =>
        cases h
        obtain ⟨fits, same⟩ := eq_of_read found
        exact ⟨fits, rest, same.symm⟩
      · cases h
  · rintro ⟨fits, rest, rfl⟩
    have full : (node.encode ++ rest).isEmpty = false := by
      have := node.length_encode
      rw [List.isEmpty_eq_false_iff, ← List.length_pos_iff, List.length_append]
      omega
    rw [if_neg (by simp [full]), read_encode fits]

theorem encode_prefixFree {node other : Node} (fits : node.Fits) (fits' : other.Fits)
    (front : node.encode <+: other.encode) : node = other := by
  have own := decode_eq_ok_iff.2 ⟨fits', List.prefix_rfl⟩
  rw [decode_eq_ok_iff.2 ⟨fits, front⟩] at own
  exact Except.ok.inj own

theorem decode_of_error {bytes : Bytes} {e : LayoutError} (full : bytes ≠ [])
    (h : read bytes = .error e) : decode bytes = .error (.serialization e.message) := by
  unfold decode
  rw [if_neg (by simpa using full), h]

/-- A byte string is refused in one of three ways, or it is read. -/
theorem decode_cases (bytes : Bytes) :
    (bytes = [] ∧ decode bytes = .error .emptyEncoding) ∨
    (TagUnknown bytes ∧ decode bytes =
      .error (.serialization (LayoutError.unknownTag (leadingTag bytes) 3).message)) ∨
    (bytes ≠ [] ∧ ¬ TagUnknown bytes) ∧
      (decode bytes = .error (.serialization LayoutError.unexpectedEnd.message) ∨
        ∃ node, decode bytes = .ok node) := by
  by_cases full : bytes = []
  · exact .inl ⟨full, by rw [full]; rfl⟩
  · by_cases unknown : TagUnknown bytes
    · exact .inr (.inl ⟨unknown, decode_of_error full (read_of_tagUnknown unknown)⟩)
    · refine .inr (.inr ⟨⟨full, unknown⟩, ?_⟩)
      rcases outcome : read bytes with e | ⟨node, rest⟩
      · obtain rfl := error_of_read unknown outcome
        exact .inl (decode_of_error full outcome)
      · obtain ⟨fits, same⟩ := eq_of_read outcome
        exact .inr ⟨node, decode_eq_ok_iff.2 ⟨fits, rest, same.symm⟩⟩

variable {bytes : Bytes}

theorem decode_eq_empty_iff : decode bytes = .error .emptyEncoding ↔ bytes = [] := by
  refine ⟨fun h => ?_, fun empty => by rw [empty]; rfl⟩
  rcases decode_cases bytes with ⟨empty, -⟩ | ⟨-, other⟩ | ⟨-, other | ⟨node, other⟩⟩
  · exact empty
  all_goals
    rw [other] at h
    cases h

theorem decode_eq_unknownTag_iff :
    decode bytes = .error (.serialization (LayoutError.unknownTag (leadingTag bytes) 3).message) ↔
      TagUnknown bytes := by
  constructor
  · intro h
    rcases decode_cases bytes with ⟨-, other⟩ | ⟨unknown, -⟩ | ⟨-, other | ⟨node, other⟩⟩
    · rw [other] at h
      cases h
    · exact unknown
    · rw [other] at h
      have same := CodecError.serialization.inj (Except.error.inj h)
      exact absurd same.symm (message_ne _ _)
    · rw [other] at h
      cases h
  · intro unknown
    refine decode_of_error ?_ (read_of_tagUnknown unknown)
    rintro rfl
    exact absurd unknown.1 (by decide)

theorem decode_eq_unexpectedEnd_iff :
    decode bytes = .error (.serialization LayoutError.unexpectedEnd.message) ↔
      bytes ≠ [] ∧ ¬ TagUnknown bytes ∧ ∀ node : Node, node.Fits → ¬ node.encode <+: bytes := by
  constructor
  · intro h
    have unread (node : Node) (fits : node.Fits) : ¬ node.encode <+: bytes := by
      intro front
      rw [decode_eq_ok_iff.2 ⟨fits, front⟩] at h
      cases h
    rcases decode_cases bytes with ⟨-, other⟩ | ⟨-, other⟩ | ⟨⟨full, known⟩, -⟩
    · rw [other] at h
      cases h
    · rw [other] at h
      have same := CodecError.serialization.inj (Except.error.inj h)
      exact absurd same (message_ne _ _)
    · exact ⟨full, known, unread⟩
  · rintro ⟨full, known, unread⟩
    rcases decode_cases bytes with ⟨empty, -⟩ | ⟨unknown, -⟩ | ⟨-, end_ | ⟨node, other⟩⟩
    · exact absurd empty full
    · exact absurd unknown known
    · exact end_
    · obtain ⟨fits, front⟩ := decode_eq_ok_iff.1 other
      exact absurd front (unread node fits)

/-- A byte string reads as a node exactly if the stored form of the node is in front of it, so
that reading undoes writing and no stored form begins with another one.  Of what does not read as
a node, the empty byte string is refused as empty, what starts with an unknown tag for the tag,
and everything else because it ends too early. -/
theorem decode_exact :
    (∀ (bytes : Bytes) (node : Node), decode bytes = .ok node ↔
      node.Fits ∧ node.encode <+: bytes) ∧
    (∀ node : Node, node.Fits → decode node.encode = .ok node) ∧
    (∀ node other : Node, node.Fits → other.Fits → node.encode <+: other.encode → node = other) ∧
    ∀ bytes : Bytes,
      (decode bytes = .error .emptyEncoding ↔ bytes = []) ∧
      (decode bytes = .error (.serialization (LayoutError.unknownTag (leadingTag bytes) 3).message) ↔
        TagUnknown bytes) ∧
      (decode bytes = .error (.serialization LayoutError.unexpectedEnd.message) ↔
        bytes ≠ [] ∧ ¬ TagUnknown bytes ∧ ∀ node : Node, node.Fits → ¬ node.encode <+: bytes) :=
  ⟨fun _ _ => decode_eq_ok_iff, fun _ fits => decode_eq_ok_iff.2 ⟨fits, List.prefix_rfl⟩,
    fun _ _ => encode_prefixFree,
    fun _ => ⟨decode_eq_empty_iff, decode_eq_unknownTag_iff, decode_eq_unexpectedEnd_iff⟩⟩

/-- A branch with two children. -/
def pair : Node := .branch [.emptyTrie, .emptyTrie]

/-- The branch reads back with a byte behind it.  Without its last byte it reads as nothing, and
so no stored form is in front of what is left.  With another tag it is refused for that. -/
theorem pair_decoded :
    decode (pair.encode ++ [7]) = .ok pair ∧
      (∀ node : Node, node.Fits → ¬ node.encode <+: pair.encode.take 75) ∧
      decode (3 :: pair.encode.tail) = .error (.serialization
        "invalid value: integer `3`, expected variant index 0 <= i < 3") := by
  obtain ⟨reads, -, -, refuses⟩ := decode_exact
  have cut : decode (pair.encode.take 75) =
      .error (.serialization LayoutError.unexpectedEnd.message) := by rfl
  have unknown : TagUnknown (3 :: pair.encode.tail) := by decide +kernel
  refine ⟨(reads _ _).2 ⟨by decide, List.prefix_append _ _⟩, ?_, (refuses _).2.1.2 unknown⟩
  exact ((refuses _).2.2.1 cut).2.2

end Node

end TrieStorage

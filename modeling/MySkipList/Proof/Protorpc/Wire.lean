import MySkipList.Construction.Protorpc

namespace MySkipList.Protorpc
open Foundation

section Length

theorem widen_shift (byte : Byte) {shift : Nat} (small : shift ≤ 24) :
    (widen byte <<< shift).toNat = byte.val <<< shift := by
  have bound : byte.val * 2 ^ shift < 2 ^ 32 :=
    calc
      byte.val * 2 ^ shift ≤ 255 * 2 ^ 24 :=
        Nat.mul_le_mul (Nat.le_of_lt_succ byte.isLt) (Nat.pow_le_pow_right (by decide) small)
      _ < 2 ^ 32 := by decide
  have plain : (widen byte).toNat = byte.val := by
    rw [widen, BitVec.toNat_ofNat]
    omega
  rw [BitVec.toNat_shiftLeft, plain, Nat.shiftLeft_eq, Nat.mod_eq_of_lt bound]

/-- The length field is a number with four digits of base 256. -/
theorem word_toNat (high upper lower low : Byte) :
    (widen high <<< 24 ||| widen upper <<< 16 ||| widen lower <<< 8 ||| widen low).toNat =
      high.val * 2 ^ 24 + upper.val * 2 ^ 16 + lower.val * 2 ^ 8 + low.val := by
  have plain : widen low = widen low <<< 0 := by simp
  have first := Nat.shiftLeft_add_eq_or_of_lt (i := 8) (b := low.val) low.isLt lower.val
  have second := Nat.shiftLeft_add_eq_or_of_lt (i := 16) (b := lower.val <<< 8 + low.val)
    (by simp only [Nat.shiftLeft_eq]; omega) upper.val
  have third := Nat.shiftLeft_add_eq_or_of_lt (i := 24) (b := upper.val <<< 16 + (lower.val <<< 8 + low.val))
    (by simp only [Nat.shiftLeft_eq]; omega) high.val
  rw [plain, BitVec.toNat_or, BitVec.toNat_or, BitVec.toNat_or, widen_shift high le_rfl, widen_shift upper (by decide),
    widen_shift lower (by decide), widen_shift low (by decide), Nat.shiftLeft_zero, Nat.or_assoc, Nat.or_assoc, ← first,
    ← second, ← third]
  simp only [Nat.shiftLeft_eq]
  omega

theorem octet_val (length : CUInt) (shift : Nat) : (octet length shift).val = length.toNat / 2 ^ shift % 256 := by
  have masked : ((length >>> shift) &&& 0xFF).toNat = length.toNat / 2 ^ shift % 256 := by
    rw [BitVec.toNat_and, BitVec.toNat_ushiftRight, Nat.shiftRight_eq_div_pow]
    exact Nat.and_two_pow_sub_one_eq_mod _ 8
  rw [octet, toByte, Fin.val_ofNat, masked, Nat.mod_mod]

/-- The length field is read back. -/
theorem word_octets (length : CUInt) :
    widen (octet length 24) <<< 24 ||| widen (octet length 16) <<< 16 ||| widen (octet length 8) <<< 8 |||
      widen (octet length 0) = length := by
  apply BitVec.eq_of_toNat_eq
  have bound := length.isLt
  rw [word_toNat]
  simp only [octet_val]
  omega

/-- The bytes of a length field are written back. -/
theorem octets_word (high upper lower low : Byte) :
    lengthOctets (widen high <<< 24 ||| widen upper <<< 16 ||| widen lower <<< 8 ||| widen low) =
      [high, upper, lower, low] := by
  have digit (shift : Nat) (byte : Byte)
      (value : (high.val * 2 ^ 24 + upper.val * 2 ^ 16 + lower.val * 2 ^ 8 + low.val) / 2 ^ shift % 256 = byte.val) :
      octet (widen high <<< 24 ||| widen upper <<< 16 ||| widen lower <<< 8 ||| widen low) shift = byte := by
    apply Fin.ext
    rw [octet_val, word_toNat, value]
  have bounds := And.intro (And.intro high.isLt upper.isLt) (And.intro lower.isLt low.isLt)
  rw [lengthOctets, digit 24 high (by omega), digit 16 upper (by omega), digit 8 lower (by omega),
    digit 0 low (by omega)]

end Length

section Head

theorem octets_length (head : Head) : head.octets.length = headLength := by
  simp [Head.octets, lengthOctets, head.protocolSize, head.reservedSize, headLength]

/-- A written head is read back. -/
theorem read_octets (head : Head) (rest : Str) : Head.read (head.octets ++ rest) = .ok head := by
  obtain ⟨protocol, version, flags, reserved, length, protocolSize, reservedSize⟩ := head
  obtain ⟨first, second, third, fourth, rfl⟩ := List.length_eq_four.mp protocolSize
  obtain ⟨fifth, sixth, rfl⟩ := List.length_eq_two.mp reservedSize
  have back := word_octets length
  simp [Head.octets, lengthOctets, Head.read, back]

/-- The head that is read is the front of the buffer. -/
theorem read_eq_ok (memory : Str) (head : Head) :
    Head.read memory = .ok head ↔ ∃ rest, memory = head.octets ++ rest := by
  constructor
  · intro returned
    unfold Head.read at returned
    split at returned
    · obtain rfl := Except.ok.inj returned
      exact ⟨_, by simp [Head.octets, octets_word]; rfl⟩
    · cases returned
  · rintro ⟨rest, rfl⟩
    exact read_octets head rest

/-- Twelve bytes are always a head. -/
theorem exists_head {memory : Str} (long : headLength ≤ memory.length) :
    ∃ head rest, memory = Head.octets head ++ rest := by
  suffices found : ∃ head, Head.read memory = .ok head by
    obtain ⟨head, returned⟩ := found
    exact ⟨head, (read_eq_ok memory head).mp returned⟩
  rcases memory with _ | ⟨_, _ | ⟨_, _ | ⟨_, _ | ⟨_, _ | ⟨_, _ | ⟨_, _ | ⟨_, _ | ⟨_, _ | ⟨_, _ | ⟨_, _ | ⟨_, _ |
    ⟨_, _⟩⟩⟩⟩⟩⟩⟩⟩⟩⟩⟩⟩
  iterate 12 exact absurd long (by simp [headLength])
  exact ⟨_, rfl⟩

end Head

section Lengths

/-- The length of a package is computed with 32 bits. -/
theorem packageLength_toNat (head : Head) : (packageLength head).toNat = (headLength + head.length.toNat) % 2 ^ 32 := by
  rw [packageLength, BitVec.toNat_add, BitVec.toNat_ofNat]
  rfl

theorem ofCInt_toNat {len : CInt} {size : Nat} (same : len.val = size) : (CUInt.ofCInt len).toNat = size := by
  have bound := len.property.2
  rw [CUInt.ofCInt, same, BitVec.ofInt_natCast, BitVec.toNat_ofNat]
  omega

theorem packageLength_toInt {head : Head} {size : Nat} (exact : (packageLength head).toNat = size)
    (small : size < 2 ^ 31) : (packageLength head).toInt = size := by
  rw [BitVec.toInt_eq_toNat_of_lt (by omega), exact]

end Lengths

/-- A buffer that starts with a head is refused if it is too short for the body, unless the length of the package
overflows. -/
theorem unpack_octets (msg : Message) (head : Head) (rest : Str) (len : CInt)
    (whole : len.val = headLength + rest.length) :
    unpack (some msg) (some (head.octets ++ rest)) len =
      .ok (if rest.length < head.length.toNat ∧ headLength + head.length.toNat < 2 ^ 32 then
          (-3, some ⟨head, msg.body⟩)
        else
          (((headLength + head.length.toNat) % 2 ^ 32 : Nat),
            some ⟨head, if rest = [] then msg.body else some rest⟩)) := by
  have bound := len.property.2
  have field := head.length.isLt
  have twelve : headLength = 12 := rfl
  have nonempty : len.val ≠ 0 := by omega
  have long : ¬ len.val < headLength := by omega
  have behind : (head.octets ++ rest).drop headLength = rest := by
    rw [← octets_length head, List.drop_left]
  have short : CUInt.ofCInt len < packageLength head ↔
      rest.length < head.length.toNat ∧ headLength + head.length.toNat < 2 ^ 32 := by
    rw [BitVec.lt_def, ofCInt_toNat whole, packageLength_toNat]
    omega
  have pointed : headLength < len.val ↔ rest ≠ [] := by
    rw [← List.length_pos_iff]
    omega
  simp only [unpack, nonempty, long, read_octets, Exec.ok_bind, short, pointed, behind, Exec.pure_eq, if_false]
  split
  · rfl
  · next fits =>
      have value : (packageLength head).toInt = ((headLength + head.length.toNat) % 2 ^ 32 : Nat) :=
        packageLength_toInt (packageLength_toNat head) (by omega)
      by_cases empty : rest = [] <;> simp [value, empty]

/-- Too short a buffer is refused without a read. -/
theorem unpack_short (msg : Message) (memory : Str) (len : CInt) (short : len.val < headLength) :
    ∃ code, unpack (some msg) (some memory) len = .ok (code, some msg) ∧ code < 0 := by
  by_cases empty : len.val = 0
  · exact ⟨-1, by simp [unpack, empty], by decide⟩
  · exact ⟨-2, by simp [unpack, empty, short], by decide⟩

/-- A buffer is accepted exactly when it starts with a head and has the body that the head announces, or when the length
of the package overflows: then `unpack` returns less than the length of a head. -/
theorem unpack_accepts_iff (msg message : Message) (memory : Str) (len : CInt) (whole : len.val = memory.length)
    (code : Int) (accepted : 0 ≤ code) :
    unpack (some msg) (some memory) len = .ok (code, some message) ↔
      ∃ rest, memory = message.head.octets ++ rest ∧ message.body = (if rest = [] then msg.body else some rest) ∧
        (message.head.length.toNat ≤ rest.length ∧ code = headLength + message.head.length.toNat ∨
          2 ^ 32 ≤ headLength + message.head.length.toNat ∧
            code = headLength + message.head.length.toNat - 2 ^ 32) := by
  have bound := len.property.2
  have twelve : headLength = 12 := rfl
  constructor
  · intro returned
    rcases lt_or_ge len.val headLength with short | long
    · obtain ⟨other, refused, negative⟩ := unpack_short msg memory len short
      obtain ⟨rfl, _⟩ := Prod.mk.inj (Except.ok.inj (refused.symm.trans returned))
      omega
    · obtain ⟨head, rest, rfl⟩ := exists_head (show headLength ≤ memory.length by omega)
      have field := head.length.isLt
      rw [List.length_append, octets_length] at whole
      rw [unpack_octets msg head rest len (by omega)] at returned
      split at returned
      · obtain ⟨rfl, _⟩ := Prod.mk.inj (Except.ok.inj returned)
        omega
      · obtain ⟨value, same⟩ := Prod.mk.inj (Except.ok.inj returned)
        obtain rfl := Option.some.inj same
        exact ⟨rest, rfl, rfl, by simp only; omega⟩
  · rintro ⟨rest, rfl, body, fits⟩
    have field := message.head.length.isLt
    rw [List.length_append, octets_length] at whole
    rw [unpack_octets msg message.head rest len (by omega), if_neg (by omega), ← body]
    have value : ((headLength + message.head.length.toNat) % 2 ^ 32 : Nat) = code := by omega
    rw [value]

/-- A head that announces the largest length is accepted without a body. -/
theorem unpack_accepts_iff_largest :
    unpack (some .zero) (some { Message.zero.head with length := -1 }.octets) ⟨12, by decide⟩ =
        .ok (11, some ⟨{ Message.zero.head with length := -1 }, none⟩) ↔
      ∃ rest, { Message.zero.head with length := -1 }.octets = { Message.zero.head with length := -1 }.octets ++ rest ∧
        none = (if rest = [] then none else some rest) ∧
        ((-1 : CUInt).toNat ≤ rest.length ∧ (11 : Int) = headLength + (-1 : CUInt).toNat ∨
          2 ^ 32 ≤ headLength + (-1 : CUInt).toNat ∧ (11 : Int) = headLength + (-1 : CUInt).toNat - 2 ^ 32) :=
  unpack_accepts_iff .zero ⟨{ Message.zero.head with length := -1 }, none⟩ _ ⟨12, by decide⟩ rfl 11 (by decide)

section Pack
variable {head : Head} {memory : Str} {len : CInt}

/-- The head replaces the first twelve bytes of the buffer. -/
theorem store_head (head : Head) (long : headLength ≤ memory.length) :
    store memory 0 head.octets = .ok (head.octets ++ memory.drop headLength) := by
  have size : (memory.take headLength).length = head.octets.length := by
    rw [octets_length, List.length_take]
    omega
  have written := store_block [] (memory.drop headLength) size
  rwa [List.nil_append, List.take_append_drop] at written

/-- A body replaces the bytes behind the head. -/
theorem store_body (head : Head) {rest body : Str} (fits : body.length ≤ rest.length) :
    store (head.octets ++ rest) headLength body = .ok (head.octets ++ body ++ rest.drop body.length) := by
  have size : (rest.take body.length).length = body.length := by
    rw [List.length_take]
    omega
  have written := store_block head.octets (rest.drop body.length) size
  rwa [List.append_assoc, List.take_append_drop, octets_length] at written

theorem load_body {body : Str} {count : Nat} (readable : count ≤ body.length) :
    load body 0 count = .ok (body.take count) := by
  have size : (body.take count).length = count := by
    rw [List.length_take]
    omega
  have loaded := load_block [] (body.take count) (body.drop count)
  rwa [List.nil_append, List.take_append_drop, size] at loaded

/-- The test of `pack` sees the length of the package without its carry. -/
theorem pack_enough (whole : len.val = memory.length) :
    CUInt.ofCInt len < packageLength head ↔ memory.length < (headLength + head.length.toNat) % 2 ^ 32 := by
  rw [BitVec.lt_def, ofCInt_toNat whole, packageLength_toNat]

theorem pack_toInt (whole : len.val = memory.length) (fits : headLength + head.length.toNat ≤ memory.length) :
    (packageLength head).toInt = headLength + head.length.toNat := by
  have bound := len.property.2
  have value : (packageLength head).toNat = headLength + head.length.toNat := by
    rw [packageLength_toNat]
    omega
  rw [packageLength_toInt value (by omega), Nat.cast_add]

/-- A message without a body is packed as its head. -/
theorem pack_head (nonempty : len.val ≠ 0) (enough : ¬ CUInt.ofCInt len < packageLength head)
    (long : headLength ≤ memory.length) :
    pack (some ⟨head, none⟩) (some memory) len =
      .ok ((packageLength head).toInt, some (head.octets ++ memory.drop headLength)) := by
  simp [pack, nonempty, enough, store_head head long]

/-- A message is packed as its head and as many bytes of its body as the head announces. -/
theorem pack_body {body : Str} (whole : len.val = memory.length)
    (fits : headLength + head.length.toNat ≤ memory.length) (readable : head.length.toNat ≤ body.length) :
    pack (some ⟨head, some body⟩) (some memory) len =
      .ok (headLength + head.length.toNat,
        some (head.octets ++ body.take head.length.toNat ++ memory.drop (headLength + head.length.toNat))) := by
  have bound := len.property.2
  have twelve : headLength = 12 := rfl
  have nonempty : len.val ≠ 0 := by omega
  have enough : ¬ CUInt.ofCInt len < packageLength head := by
    rw [pack_enough whole]
    omega
  have size : (body.take head.length.toNat).length = head.length.toNat := by
    rw [List.length_take]
    omega
  have stored : store (head.octets ++ memory.drop headLength) headLength (body.take head.length.toNat) =
      .ok (head.octets ++ body.take head.length.toNat ++ memory.drop (headLength + head.length.toNat)) := by
    rw [store_body head (by rw [List.length_drop]; omega), List.drop_drop, size]
  have written := store_head head (show headLength ≤ memory.length by omega)
  by_cases empty : head.length = 0#32
  · simp [pack, nonempty, enough, written, pack_toInt whole fits, empty]
  · simp [pack, nonempty, enough, written, pack_toInt whole fits, empty, load_body readable, stored]

/-- With a readable body, `pack` writes behind the end of its buffer exactly when the length of the package overflows and
the buffer takes the rest of the division for enough. -/
theorem pack_faults_iff (head : Head) (body memory : Str) (len : CInt) (whole : len.val = memory.length)
    (nonempty : memory ≠ []) (readable : head.length.toNat ≤ body.length) :
    (∃ fault, pack (some ⟨head, some body⟩) (some memory) len = .error fault) ↔
      2 ^ 32 ≤ headLength + head.length.toNat ∧ headLength + head.length.toNat - 2 ^ 32 ≤ memory.length := by
  have bound := len.property.2
  have field := head.length.isLt
  have twelve : headLength = 12 := rfl
  have some : len.val ≠ 0 := by
    have := List.length_pos_iff.mpr nonempty
    omega
  by_cases fits : headLength + head.length.toNat ≤ memory.length
  · rw [pack_body whole fits readable]
    simp
    omega
  · by_cases enough : CUInt.ofCInt len < packageLength head
    · have refused := (pack_enough whole).mp enough
      simp [pack, some, enough]
      omega
    · have passed := (pack_enough whole).not.mp enough
      have wraps : 2 ^ 32 ≤ headLength + head.length.toNat := by omega
      have announced : ¬ head.length = 0#32 := by
        rintro zero
        rw [zero, BitVec.toNat_zero] at wraps
        omega
      refine iff_of_true ⟨.outOfBounds, ?_⟩ (by omega)
      by_cases long : headLength ≤ memory.length
      · have size : (body.take head.length.toNat).length = head.length.toNat := by
          rw [List.length_take]
          omega
        have outside : (head.octets ++ memory.drop headLength).length <
            headLength + (body.take head.length.toNat).length := by
          rw [List.length_append, octets_length, List.length_drop, size]
          omega
        simp [pack, some, enough, store_head head long, announced, load_body readable, store_outside outside]
      · have outside : memory.length < 0 + head.octets.length := by
          rw [octets_length]
          omega
        simp [pack, some, enough, store_outside outside]

/-- The announced length is the largest one, so the package seems to have eleven bytes. -/
theorem pack_faults_iff_largest :
    (∃ fault, pack (some ⟨{ Message.zero.head with length := -1 }, some (List.replicate (2 ^ 32) (toByte 0))⟩)
        (some (List.replicate 20 (toByte 0))) ⟨20, by decide⟩ = .error fault) ↔
      2 ^ 32 ≤ headLength + (-1 : CUInt).toNat ∧
        headLength + (-1 : CUInt).toNat - 2 ^ 32 ≤ (List.replicate 20 (toByte 0)).length :=
  pack_faults_iff { Message.zero.head with length := -1 } (List.replicate (2 ^ 32) (toByte 0))
    (List.replicate 20 (toByte 0)) ⟨20, by decide⟩ rfl (by decide) (by rw [List.length_replicate]; decide)

/-- A packed message is unpacked with the same head and the same body, and `pack` changes no byte behind the package. -/
theorem unpack_pack (head : Head) (body memory : Str) (len : CInt) (msg : Message) (whole : len.val = memory.length)
    (fits : headLength + head.length.toNat ≤ memory.length) (readable : head.length.toNat ≤ body.length) :
    ∃ packed pointer,
      pack (some ⟨head, some body⟩) (some memory) len = .ok (headLength + head.length.toNat, some packed) ∧
        packed.length = memory.length ∧
        packed.drop (headLength + head.length.toNat) = memory.drop (headLength + head.length.toNat) ∧
        unpack (some msg) (some packed) len = .ok (headLength + head.length.toNat, some ⟨head, pointer⟩) ∧
        (0 < head.length.toNat → pointer.map (List.take head.length.toNat) = some (body.take head.length.toNat)) := by
  have bound := len.property.2
  have size : (body.take head.length.toNat).length = head.length.toNat := by
    rw [List.length_take]
    omega
  set count := head.length.toNat with announced
  set rest := body.take count ++ memory.drop (headLength + count) with behind
  have length : rest.length = memory.length - headLength := by
    rw [behind, List.length_append, size, List.length_drop]
    omega
  have packed := pack_body whole fits readable
  rw [List.append_assoc] at packed
  refine ⟨head.octets ++ rest, if rest = [] then msg.body else some rest, packed, ?_, ?_, ?_, fun some => ?_⟩
  · rw [List.length_append, octets_length, length]
    omega
  · have front : (head.octets ++ body.take count).length = headLength + count := by
      rw [List.length_append, octets_length, size]
    rw [behind, ← List.append_assoc, ← front, List.drop_left]
  · rw [unpack_octets msg head rest len (by omega), if_neg (by omega), Nat.mod_eq_of_lt (by omega), Nat.cast_add]
  · have nonempty : rest ≠ [] := List.length_pos_iff.mp (by omega)
    have taken : rest.take count = body.take count := by
      rw [behind, List.take_append_of_le_length size.ge, List.take_take, Nat.min_self]
    rw [if_neg nonempty, Option.map_some, taken]

/-- Two bytes in a buffer that has room for one more. -/
theorem unpack_pack_roomy :
    ∃ packed pointer,
      pack (some ⟨{ Message.zero.head with length := 2 }, some (bytes "hi")⟩) (some (List.replicate 15 (toByte 9)))
          ⟨15, by decide⟩ = .ok (headLength + (2 : CUInt).toNat, some packed) ∧
        packed.length = (List.replicate 15 (toByte 9)).length ∧
        packed.drop (headLength + (2 : CUInt).toNat) =
          (List.replicate 15 (toByte 9)).drop (headLength + (2 : CUInt).toNat) ∧
        unpack (some .zero) (some packed) ⟨15, by decide⟩ =
          .ok (headLength + (2 : CUInt).toNat, some ⟨{ Message.zero.head with length := 2 }, pointer⟩) ∧
        (0 < (2 : CUInt).toNat →
          pointer.map (List.take (2 : CUInt).toNat) = some ((bytes "hi").take (2 : CUInt).toNat)) :=
  unpack_pack { Message.zero.head with length := 2 } (bytes "hi") (List.replicate 15 (toByte 9)) ⟨15, by decide⟩ .zero
    rfl (by decide) (by decide)

end Pack

end MySkipList.Protorpc

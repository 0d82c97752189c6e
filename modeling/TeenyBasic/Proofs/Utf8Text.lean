import TeenyBasic.Text.Utf8

/-!
# Reading and writing UTF-8

Bytes are read as a text exactly if they are the bytes of that text (`decode_eq_ok_iff`).  Both
directions go character by character: what a first byte announces and the bytes that follow it are
the bytes of the character they are put together to, and the bytes of a character are read so.
-/

namespace TeenyBasic
namespace Text
namespace Utf8

open String (utf8EncodeChar)

@[simp] theorem encode_ofList (characters : List Char) :
    encode (String.ofList characters) = characters.flatMap utf8EncodeChar := by
  rw [encode, String.toUTF8, String.toByteArray_ofList, List.utf8Encode,
    List.toList_data_toByteArray]

@[simp] theorem toNat_val_ofNat {number : Nat} (valid : number.isValidChar) :
    (Char.ofNat number).val.toNat = number := by
  rw [Char.ofNat, dif_pos valid]
  rfl

theorem ofNat_eq_of_toNat {number : Nat} {byte : UInt8} (same : number = byte.toNat) :
    UInt8.ofNat number = byte := by
  rw [same]
  exact UInt8.ofNat_toNat

private theorem utf8EncodeChar_ascii {byte : UInt8} (ascii : byte.toNat < 128) :
    utf8EncodeChar (Char.ofNat byte.toNat) = [byte] := by
  have valid : byte.toNat.isValidChar := .inl (by omega)
  rw [utf8EncodeChar, toNat_val_ofNat valid, if_pos (by omega), ofNat_eq_of_toNat rfl]

def IsFollowing (byte : UInt8) : Prop :=
  128 ≤ byte.toNat ∧ byte.toNat < 192

section Sequences

variable {first second third fourth : UInt8}

private theorem utf8EncodeChar_two (low : 194 ≤ first.toNat) (high : first.toNat < 224)
    (follows : IsFollowing second) :
    utf8EncodeChar (assemble (first.toNat - 192) [second]) = [first, second] := by
  have code : assemble (first.toNat - 192) [second] =
    Char.ofNat ((first.toNat - 192) * 64 + (second.toNat - 128)) := rfl
  simp only [IsFollowing] at follows
  generalize number_eq : (first.toNat - 192) * 64 + (second.toNat - 128) = number at code
  have valid : number.isValidChar := .inl (by omega)
  rw [code, utf8EncodeChar, toNat_val_ofNat valid, if_neg (by omega), if_pos (by omega),
    ofNat_eq_of_toNat (show _ = first.toNat by omega),
    ofNat_eq_of_toNat (show _ = second.toNat by omega)]

/-- Three bytes leave out what two can say and what is no character. -/
theorem utf8EncodeChar_three (low : 224 ≤ first.toNat) (high : first.toNat < 240)
    (follows : IsFollowing second) (follows' : IsFollowing third)
    (shortest : first.toNat = 224 → 160 ≤ second.toNat)
    (known : first.toNat = 237 → second.toNat < 160) :
    utf8EncodeChar (assemble (first.toNat - 224) [second, third]) = [first, second, third] := by
  have code : assemble (first.toNat - 224) [second, third] =
    Char.ofNat (((first.toNat - 224) * 64 + (second.toNat - 128)) * 64 + (third.toNat - 128)) := rfl
  simp only [IsFollowing] at follows follows'
  generalize number_eq : ((first.toNat - 224) * 64 + (second.toNat - 128)) * 64 +
    (third.toNat - 128) = number at code
  have valid : number.isValidChar := by
    unfold Nat.isValidChar
    omega
  rw [code, utf8EncodeChar, toNat_val_ofNat valid, if_neg (by omega), if_neg (by omega),
    if_pos (by omega), ofNat_eq_of_toNat (show _ = first.toNat by omega),
    ofNat_eq_of_toNat (show _ = second.toNat by omega),
    ofNat_eq_of_toNat (show _ = third.toNat by omega)]

/-- Four bytes leave out what three can say and what is too great. -/
theorem utf8EncodeChar_four (low : 240 ≤ first.toNat) (high : first.toNat < 245)
    (follows : IsFollowing second) (follows' : IsFollowing third) (follows'' : IsFollowing fourth)
    (shortest : first.toNat = 240 → 144 ≤ second.toNat)
    (known : first.toNat = 244 → second.toNat < 144) :
    utf8EncodeChar (assemble (first.toNat - 240) [second, third, fourth]) =
      [first, second, third, fourth] := by
  have code : assemble (first.toNat - 240) [second, third, fourth] =
    Char.ofNat ((((first.toNat - 240) * 64 + (second.toNat - 128)) * 64 +
      (third.toNat - 128)) * 64 + (fourth.toNat - 128)) := rfl
  simp only [IsFollowing] at follows follows' follows''
  generalize number_eq : (((first.toNat - 240) * 64 + (second.toNat - 128)) * 64 +
      (third.toNat - 128)) * 64 + (fourth.toNat - 128) = number at code
  have valid : number.isValidChar := by
    unfold Nat.isValidChar
    omega
  rw [code, utf8EncodeChar, toNat_val_ofNat valid, if_neg (by omega), if_neg (by omega),
    if_neg (by omega), ofNat_eq_of_toNat (show _ = first.toNat by omega),
    ofNat_eq_of_toNat (show _ = second.toNat by omega),
    ofNat_eq_of_toNat (show _ = third.toNat by omega),
    ofNat_eq_of_toNat (show _ = fourth.toNat by omega)]

end Sequences

/-- What the first byte of several can be. -/
theorem lead?_cases {byte : UInt8} {lead : Lead} (found : lead? byte = some lead) :
    (194 ≤ byte.toNat ∧ byte.toNat < 224 ∧ lead = ⟨byte.toNat - 192, 1, 0x80, 0xbf⟩) ∨
    (224 ≤ byte.toNat ∧ byte.toNat < 240 ∧
      lead = ⟨byte.toNat - 224, 2, if byte = 0xe0 then 0xa0 else 0x80,
        if byte = 0xed then 0x9f else 0xbf⟩) ∨
    (240 ≤ byte.toNat ∧ byte.toNat < 245 ∧
      lead = ⟨byte.toNat - 240, 3, if byte = 0xf0 then 0x90 else 0x80,
        if byte = 0xf4 then 0x8f else 0xbf⟩) := by
  simp only [lead?, UInt8.lt_iff_toNat_lt, UInt8.reduceToNat] at found
  split at found
  · cases found
  split at found
  · obtain rfl := Option.some.inj found
    exact .inl ⟨by omega, by omega, rfl⟩
  split at found
  · obtain rfl := Option.some.inj found
    exact .inr (.inl ⟨by omega, by omega, rfl⟩)
  split at found
  · obtain rfl := Option.some.inj found
    exact .inr (.inr ⟨by omega, by omega, rfl⟩)
  · cases found

private theorem continuation_append_drop {least greatest : UInt8} {count : Nat} {bytes : List UInt8}
    (full : (continuation least greatest count bytes).length = count) :
    continuation least greatest count bytes ++ bytes.drop count = bytes := by
  induction count generalizing least greatest bytes with
  | zero => rfl
  | succ count induction =>
    cases bytes with
    | nil => simp [continuation] at full
    | cons byte bytes =>
      rw [continuation] at full ⊢
      split at full
      · next inRange =>
        rw [if_pos inRange, List.cons_append, List.drop_succ_cons]
        rw [induction (Nat.succ.inj full)]
      · cases full

theorem exists_cons_of_continuation {least greatest : UInt8} {count : Nat} {bytes : List UInt8}
    (full : (continuation least greatest (count + 1) bytes).length = count + 1) :
    ∃ byte rest, (least.toNat ≤ byte.toNat ∧ byte.toNat ≤ greatest.toNat) ∧
      continuation least greatest (count + 1) bytes = byte :: continuation 0x80 0xbf count rest ∧
      (continuation 0x80 0xbf count rest).length = count := by
  cases bytes with
  | nil => cases full
  | cons byte rest =>
    rw [continuation] at full ⊢
    split at full
    · next inRange =>
      rw [Bool.and_eq_true, decide_eq_true_eq, decide_eq_true_eq, UInt8.le_iff_toNat_le,
        UInt8.le_iff_toNat_le] at inRange
      refine ⟨byte, rest, inRange, ?_, Nat.succ.inj full⟩
      rw [if_pos (by simpa [UInt8.le_iff_toNat_le] using inRange)]
    · cases full

theorem eq_iff_toNat {first second : UInt8} : first = second ↔ first.toNat = second.toNat :=
  UInt8.toNat_inj.symm

/-- What is read as a character is the bytes of the character. -/
theorem utf8EncodeChar_assemble {byte : UInt8} {lead : Lead} {bytes : List UInt8}
    (announced : lead? byte = some lead)
    (full : (continuation lead.least lead.greatest lead.following bytes).length =
      lead.following) :
    utf8EncodeChar (assemble lead.payload
        (continuation lead.least lead.greatest lead.following bytes)) =
      byte :: continuation lead.least lead.greatest lead.following bytes := by
  rcases lead?_cases announced with ⟨low, high, rfl⟩ | ⟨low, high, rfl⟩ | ⟨low, high, rfl⟩
  · obtain ⟨second, rest, inRange, same, -⟩ := exists_cons_of_continuation full
    simp only [UInt8.reduceToNat] at inRange
    dsimp only at same ⊢
    rw [same]
    exact utf8EncodeChar_two low high ⟨by omega, by omega⟩
  · obtain ⟨second, rest, inRange, same, full⟩ := exists_cons_of_continuation full
    obtain ⟨third, rest, inRange', same', -⟩ := exists_cons_of_continuation full
    simp only [eq_iff_toNat, apply_ite UInt8.toNat, UInt8.reduceToNat] at inRange inRange'
    dsimp only at same ⊢
    rw [same, same']
    exact utf8EncodeChar_three low high ⟨by grind, by grind⟩ ⟨by omega, by omega⟩ (by grind)
      (by grind)
  · obtain ⟨second, rest, inRange, same, full⟩ := exists_cons_of_continuation full
    obtain ⟨third, rest, inRange', same', full⟩ := exists_cons_of_continuation full
    obtain ⟨fourth, rest, inRange'', same'', -⟩ := exists_cons_of_continuation full
    simp only [eq_iff_toNat, apply_ite UInt8.toNat, UInt8.reduceToNat] at inRange inRange' inRange''
    dsimp only at same ⊢
    rw [same, same', same'']
    exact utf8EncodeChar_four low high ⟨by grind, by grind⟩ ⟨by omega, by omega⟩
      ⟨by omega, by omega⟩ (by grind) (by grind)

/-- Bytes that are read as characters are the bytes of these characters. -/
theorem eq_flatMap_of_decodeFrom {position : Nat} {bytes : List UInt8} {characters : List Char}
    (read : decodeFrom position bytes = .ok characters) :
    bytes = characters.flatMap utf8EncodeChar := by
  fun_induction decodeFrom position bytes generalizing characters with
  | case1 =>
    cases read
    rfl
  | case2 position byte bytes ascii rest behind induction =>
    cases read
    rw [UInt8.lt_iff_toNat_lt] at ascii
    rw [List.flatMap_cons, utf8EncodeChar_ascii ascii, induction behind]
    rfl
  | case3 => cases read
  | case4 => cases read
  | case5 position byte bytes _ lead announced found full rest behind =>
    rename_i induction
    cases read
    rw [List.flatMap_cons, utf8EncodeChar_assemble announced full, ← induction behind,
      List.cons_append, continuation_append_drop full]
  | case6 => cases read
  | case7 => cases read
  | case8 => cases read

section Sequences

variable {first second third fourth : UInt8}

private theorem lead?_two (low : 194 ≤ first.toNat) (high : first.toNat < 224) :
    lead? first = some ⟨first.toNat - 192, 1, 0x80, 0xbf⟩ := by
  simp only [lead?, UInt8.lt_iff_toNat_lt, UInt8.reduceToNat]
  rw [if_neg (by omega), if_pos high]

private theorem lead?_three (low : 224 ≤ first.toNat) (high : first.toNat < 240) :
    lead? first = some ⟨first.toNat - 224, 2, if first = 0xe0 then 0xa0 else 0x80,
      if first = 0xed then 0x9f else 0xbf⟩ := by
  simp only [lead?, UInt8.lt_iff_toNat_lt, UInt8.reduceToNat]
  rw [if_neg (by omega), if_neg (by omega), if_pos high]

private theorem lead?_four (low : 240 ≤ first.toNat) (high : first.toNat < 245) :
    lead? first = some ⟨first.toNat - 240, 3, if first = 0xf0 then 0x90 else 0x80,
      if first = 0xf4 then 0x8f else 0xbf⟩ := by
  simp only [lead?, UInt8.lt_iff_toNat_lt, UInt8.reduceToNat]
  rw [if_neg (by omega), if_neg (by omega), if_neg (by omega), if_pos high]

theorem continuation_cons {least greatest : UInt8} (low : least.toNat ≤ first.toNat)
    (high : first.toNat ≤ greatest.toNat) (count : Nat) (bytes : List UInt8) :
    continuation least greatest (count + 1) (first :: bytes) =
      first :: continuation 0x80 0xbf count bytes := by
  rw [continuation, if_pos (by simp [UInt8.le_iff_toNat_le, low, high])]

theorem IsFollowing.continuation_eq (follows : IsFollowing first) (count : Nat)
    (bytes : List UInt8) :
    continuation 0x80 0xbf (count + 1) (first :: bytes) =
      first :: continuation 0x80 0xbf count bytes := by
  obtain ⟨low, high⟩ := follows
  have low' : (0x80 : UInt8).toNat ≤ first.toNat := low
  have high' : first.toNat ≤ (0xbf : UInt8).toNat := Nat.le_of_lt_succ high
  exact continuation_cons low' high' count bytes

/-- The first byte of several and those behind it are read as a character. -/
structure Sequence (character : Char) (first : UInt8) (others : List UInt8) (lead : Lead) :
    Prop where
  above : 128 ≤ first.toNat
  announced : lead? first = some lead
  length_eq : others.length = lead.following
  continuation_eq : ∀ rest,
    continuation lead.least lead.greatest lead.following (others ++ rest) = others
  assemble_eq : assemble lead.payload others = character

private theorem sequence_two (low : 194 ≤ first.toNat) (high : first.toNat < 224)
    (follows : IsFollowing second) :
    ∃ lead, Sequence (assemble (first.toNat - 192) [second]) first [second] lead :=
  ⟨_, by omega, lead?_two low high, rfl, fun rest => follows.continuation_eq 0 rest, rfl⟩

private theorem sequence_three (low : 224 ≤ first.toNat) (high : first.toNat < 240)
    (follows : IsFollowing second) (follows' : IsFollowing third)
    (shortest : first.toNat = 224 → 160 ≤ second.toNat)
    (known : first.toNat = 237 → second.toNat < 160) :
    ∃ lead, Sequence (assemble (first.toNat - 224) [second, third]) first [second, third] lead := by
  refine ⟨_, by omega, lead?_three low high, rfl, fun rest => ?_, rfl⟩
  simp only [IsFollowing] at follows
  rw [List.cons_append, continuation_cons, List.cons_append, follows'.continuation_eq]
  · rfl
  · simp only [eq_iff_toNat, apply_ite UInt8.toNat, UInt8.reduceToNat]
    grind
  · simp only [eq_iff_toNat, apply_ite UInt8.toNat, UInt8.reduceToNat]
    grind

private theorem sequence_four (low : 240 ≤ first.toNat) (high : first.toNat < 245)
    (follows : IsFollowing second) (follows' : IsFollowing third) (follows'' : IsFollowing fourth)
    (shortest : first.toNat = 240 → 144 ≤ second.toNat)
    (known : first.toNat = 244 → second.toNat < 144) :
    ∃ lead, Sequence (assemble (first.toNat - 240) [second, third, fourth]) first
      [second, third, fourth] lead := by
  refine ⟨_, by omega, lead?_four low high, rfl, fun rest => ?_, rfl⟩
  simp only [IsFollowing] at follows
  rw [List.cons_append, continuation_cons, List.cons_append, follows'.continuation_eq,
    List.cons_append, follows''.continuation_eq]
  · rfl
  · simp only [eq_iff_toNat, apply_ite UInt8.toNat, UInt8.reduceToNat]
    grind
  · simp only [eq_iff_toNat, apply_ite UInt8.toNat, UInt8.reduceToNat]
    grind

end Sequences

@[simp] theorem toNat_ofNat_of_lt {number : Nat} (small : number < 256) :
    (UInt8.ofNat number).toNat = number := by
  rw [UInt8.toNat_ofNat']
  exact Nat.mod_eq_of_lt small

/-- The bytes of a character beyond ASCII are read as that character. -/
theorem exists_sequence {character : Char} (beyond : 127 < character.val.toNat) :
    ∃ first others lead, utf8EncodeChar character = first :: others ∧
      Sequence character first others lead := by
  have valid : character.val.toNat.isValidChar := character.valid
  have back : Char.ofNat character.val.toNat = character := Char.ofNat_toNat character
  unfold utf8EncodeChar
  generalize character.val.toNat = number at beyond valid back
  unfold Nat.isValidChar at valid
  have last := toNat_ofNat_of_lt (show number % 64 + 128 < 256 by omega)
  have middle := toNat_ofNat_of_lt (show number / 64 % 64 + 128 < 256 by omega)
  dsimp only
  rw [if_neg (by omega)]
  split
  · have first := toNat_ofNat_of_lt (show number / 64 % 32 + 192 < 256 by omega)
    generalize UInt8.ofNat (number / 64 % 32 + 192) = one at first ⊢
    generalize UInt8.ofNat (number % 64 + 128) = two at last ⊢
    obtain ⟨lead, sequence⟩ := @sequence_two one two (by omega) (by omega) ⟨by omega, by omega⟩
    have code : assemble (one.toNat - 192) [two] = character := by
      rw [← back]
      exact congrArg Char.ofNat (show (one.toNat - 192) * 64 + (two.toNat - 128) = number by omega)
    exact ⟨one, [two], lead, rfl, code ▸ sequence⟩
  split
  · have first := toNat_ofNat_of_lt (show number / 4096 % 16 + 224 < 256 by omega)
    generalize UInt8.ofNat (number / 4096 % 16 + 224) = one at first ⊢
    generalize UInt8.ofNat (number / 64 % 64 + 128) = two at middle ⊢
    generalize UInt8.ofNat (number % 64 + 128) = three at last ⊢
    obtain ⟨lead, sequence⟩ := @sequence_three one two three (by omega) (by omega)
      ⟨by omega, by omega⟩ ⟨by omega, by omega⟩ (by omega) (by omega)
    have code : assemble (one.toNat - 224) [two, three] = character := by
      rw [← back]
      exact congrArg Char.ofNat (show ((one.toNat - 224) * 64 + (two.toNat - 128)) * 64 +
        (three.toNat - 128) = number by omega)
    exact ⟨one, [two, three], lead, rfl, code ▸ sequence⟩
  · have first := toNat_ofNat_of_lt (show number / 262144 % 8 + 240 < 256 by omega)
    have second := toNat_ofNat_of_lt (show number / 4096 % 64 + 128 < 256 by omega)
    generalize UInt8.ofNat (number / 262144 % 8 + 240) = one at first ⊢
    generalize UInt8.ofNat (number / 4096 % 64 + 128) = two at second ⊢
    generalize UInt8.ofNat (number / 64 % 64 + 128) = three at middle ⊢
    generalize UInt8.ofNat (number % 64 + 128) = four at last ⊢
    obtain ⟨lead, sequence⟩ := @sequence_four one two three four (by omega) (by omega)
      ⟨by omega, by omega⟩ ⟨by omega, by omega⟩ ⟨by omega, by omega⟩ (by omega) (by omega)
    have code : assemble (one.toNat - 240) [two, three, four] = character := by
      rw [← back]
      exact congrArg Char.ofNat (show (((one.toNat - 240) * 64 + (two.toNat - 128)) * 64 +
        (three.toNat - 128)) * 64 + (four.toNat - 128) = number by omega)
    exact ⟨one, [two, three, four], lead, rfl, code ▸ sequence⟩

private theorem decodeFrom_flatMap (position : Nat) (characters : List Char) :
    decodeFrom position (characters.flatMap utf8EncodeChar) = .ok characters := by
  induction characters generalizing position with
  | nil => rw [List.flatMap_nil, decodeFrom]
  | cons character rest induction =>
    rw [List.flatMap_cons]
    by_cases ascii : character.val.toNat ≤ 127
    · have first := toNat_ofNat_of_lt (show character.val.toNat < 256 by omega)
      have small : UInt8.ofNat character.val.toNat < 0x80 := by
        rw [UInt8.lt_iff_toNat_lt, first]
        exact Nat.lt_succ_of_le ascii
      have back : Char.ofNat character.val.toNat = character := Char.ofNat_toNat character
      rw [utf8EncodeChar, if_pos ascii, List.singleton_append, decodeFrom, if_pos small,
        induction, first, back]
    · obtain ⟨first, others, lead, same, sequence⟩ := exists_sequence (Nat.lt_of_not_le ascii)
      have large : ¬first < 0x80 := by
        rw [UInt8.lt_iff_toNat_lt]
        exact Nat.not_lt.mpr sequence.above
      rw [same, List.cons_append, decodeFrom, if_neg large, sequence.announced]
      dsimp only
      rw [sequence.continuation_eq, if_pos sequence.length_eq, ← sequence.length_eq,
        List.drop_left, induction, sequence.assemble_eq]

/-- Bytes are read as a text exactly if they are the bytes of the text. -/
theorem decode_eq_ok_iff {bytes : List UInt8} {text : String} :
    decode bytes = .ok text ↔ bytes = encode text := by
  unfold decode
  constructor
  · intro read
    split at read
    · next characters found =>
      obtain rfl := Except.ok.inj read
      rw [encode_ofList]
      exact eq_flatMap_of_decodeFrom found
    · cases read
  · rintro rfl
    rw [← String.ofList_toList (s := text), encode_ofList, decodeFrom_flatMap]

end Utf8
end Text
end TeenyBasic

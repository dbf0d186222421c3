import Mathlib.Data.Nat.Basic
import Mathlib.Order.Monotone.Defs
import VueScope.Text.Bytes

/-! Byte offsets and code points. A code point counts once the bytes of its encoding are all there, so the
code points in front of a byte offset are those that decoding the bytes in front of it gives, where a
code point that is cut off is left out as a whole. -/
namespace VueScope.Text

theorem byteLength_append (first second : List Char) :
    byteLength (first ++ second) = byteLength first + byteLength second := by
  induction first with
  | nil => simp [byteLength]
  | cons c rest ih => simp [byteLength,ih,Nat.add_assoc]

/-- As many code points count as end at or before the byte. -/
theorem le_charOffset_iff {text : List Char} {count byte : Nat} :
    count ≤ charOffset text byte ↔ count ≤ text.length ∧ byteLength (text.take count) ≤ byte := by
  induction text generalizing count byte with
  | nil => simp +contextual [charOffset,byteLength]
  | cons c cs ih =>
    cases count with
    | zero => simp [byteLength]
    | succ count =>
      rw [charOffset,List.take_succ_cons,byteLength,List.length_cons]
      split
      · rw [Nat.add_le_add_iff_right,ih,Nat.add_le_add_iff_right]
        omega
      · omega

variable (text : List Char)

theorem charOffset_le_length (byte : Nat) : charOffset text byte ≤ text.length :=
  (le_charOffset_iff.mp (Nat.le_refl _)).1

theorem charOffset_mono {first second : Nat} (ordered : first ≤ second) :
    charOffset text first ≤ charOffset text second := by
  obtain ⟨inside,ends⟩ := le_charOffset_iff.mp (Nat.le_refl (charOffset text first))
  exact le_charOffset_iff.mpr ⟨inside,Nat.le_trans ends ordered⟩

theorem charOffset_cast_mono {first second : Nat} (ordered : first ≤ second) :
    (charOffset text first : Int) ≤ charOffset text second :=
  Int.ofNat_le.mpr (charOffset_mono text ordered)

theorem charOffset_lt_of_lt (byte count : Nat)
    (before : byte < byteLength (text.take count)) : charOffset text byte < count := by
  rw [← Nat.not_le,le_charOffset_iff]
  omega

theorem charOffset_append_shift (lead text : List Char) (byte : Nat) :
    charOffset (lead ++ text) (byte + byteLength lead) = charOffset text byte + lead.length := by
  induction lead with
  | nil => rfl
  | cons c cs ih =>
    rw [List.cons_append,charOffset,byteLength,if_pos (by omega)]
    rw [show byte + (c.utf8Size + byteLength cs) - c.utf8Size = byte + byteLength cs by omega,ih]
    rfl

theorem charOffset_append (front back : List Char) :
    charOffset (front ++ back) (byteLength front) = front.length := by
  have start : charOffset back 0 = 0 := by
    cases back with
    | nil => rfl
    | cons c cs => rw [charOffset,if_neg (Nat.not_le.mpr c.utf8Size_pos)]
  simpa [start] using charOffset_append_shift front back 0

def encode : List UInt8 :=
  text.flatMap String.utf8EncodeChar

theorem encode_append (first second : List Char) : encode (first ++ second) = encode first ++ encode second :=
  List.flatMap_append

theorem encode_cons (c : Char) (text : List Char) :
    encode (c :: text) = String.utf8EncodeChar c ++ encode text :=
  List.flatMap_cons

theorem length_encode : (encode text).length = byteLength text := by
  induction text with
  | nil => rfl
  | cons c rest ih => rw [encode_cons,List.length_append,String.length_utf8EncodeChar,byteLength,ih]

/-- The code points that bytes encode. A byte from which none can be read is passed over. -/
def decode : List UInt8 → List Char
  | [] => []
  | byte :: rest =>
    match (byte :: rest).toByteArray.utf8DecodeChar? 0 with
    | some c => c :: decode (rest.drop (c.utf8Size - 1))
    | none => decode rest
termination_by bytes => bytes.length
decreasing_by all_goals simp only [List.length_drop,List.length_cons]; omega

theorem decode_encodeChar_append (c : Char) (bytes : List UInt8) :
    decode (String.utf8EncodeChar c ++ bytes) = c :: decode bytes := by
  have read : (String.utf8EncodeChar c ++ bytes).toByteArray.utf8DecodeChar? 0 = some c := by
    rw [List.toByteArray_append]
    exact ByteArray.utf8DecodeChar?_utf8EncodeChar_append
  have width := String.length_utf8EncodeChar c
  cases whole : String.utf8EncodeChar c with
  | nil => exact absurd whole String.utf8EncodeChar_ne_nil
  | cons byte more =>
    rw [whole] at read width
    have rest : c.utf8Size - 1 = more.length := by simp [← width]
    rw [List.cons_append,decode,← List.cons_append,read]
    dsimp only
    rw [rest,List.drop_left]

/-- Bytes that are the end of an encoding, or the front of one, hold no code point. -/
theorem decode_of_part {c : Char} (before : List UInt8) {bytes after : List UInt8}
    (part : String.utf8EncodeChar c = before ++ bytes ++ after) (cut : before ≠ [] ∨ after ≠ []) :
    decode bytes = [] := by
  induction bytes generalizing before with
  | nil => rw [decode]
  | cons byte rest ih =>
    have none : (byte :: rest).toByteArray.utf8DecodeChar? 0 = none := by
      cases read : (byte :: rest).toByteArray.utf8DecodeChar? 0 with
      | none => rfl
      | some other =>
        -- a code point can be read at the front of an encoding only, and there it is the whole of it
        have first := ByteArray.isUTF8FirstByte_of_isSome_utf8DecodeChar? (Option.isSome_of_eq_some read)
        have front : before.length = 0 := by
          apply (@UInt8.isUTF8FirstByte_getElem_utf8EncodeChar c _ (by simp [part])).mp
          simpa [part] using first
        have here := ByteArray.utf8DecodeChar?_append_eq_some read after.toByteArray
        have wide := ByteArray.le_size_of_utf8DecodeChar?_eq_some read
        have width := String.length_utf8EncodeChar c
        rw [List.length_eq_zero_iff] at front
        rw [front,List.nil_append] at part
        rw [← List.toByteArray_append,← part,← List.append_nil (String.utf8EncodeChar c),
          List.toByteArray_append,ByteArray.utf8DecodeChar?_utf8EncodeChar_append] at here
        cases here
        rw [part,List.length_append] at width
        rw [List.size_toByteArray] at wide
        have none : after = [] := List.eq_nil_of_length_eq_zero (by omega)
        simp [front,none] at cut
    rw [decode,none]
    exact ih (before ++ [byte]) (by simp [part]) (.inl (by simp))

theorem decode_take_encode (byte : Nat) :
    decode ((encode text).take byte) = text.take (charOffset text byte) := by
  induction text generalizing byte with
  | nil => simp [encode,decode]
  | cons c rest ih =>
    have width := String.length_utf8EncodeChar c
    rw [encode_cons,charOffset,List.take_append,width]
    split
    next inside =>
      rw [List.take_of_length_le (by omega),decode_encodeChar_append,ih,List.take_succ_cons]
    next outside =>
      have none : byte - c.utf8Size = 0 := by omega
      rw [none,List.take_zero,List.append_nil,List.take_zero]
      refine decode_of_part [] (List.take_append_drop byte _).symm (.inr ?_)
      rw [← List.length_pos_iff,List.length_drop]
      omega

theorem byte_offsets_are_converted_exactly (text : List Char) :
    (∀ byte,
      charOffset text byte = (decode ((encode text).take byte)).length ∧
      charOffset text byte =
        (List.range text.length).countP fun place => (encode (text.take (place + 1))).length ≤ byte) ∧
    (∀ count, charOffset text (encode (text.take count)).length = min count text.length) ∧
    Monotone (charOffset text) ∧ ∀ byte, charOffset text byte ≤ text.length := by
  refine ⟨fun byte => ⟨?_,?_⟩,fun count => ?_,fun _ _ => charOffset_mono text,
    charOffset_le_length text⟩
  · rw [decode_take_encode,List.length_take,Nat.min_eq_left (charOffset_le_length text byte)]
  · have ends (place : Nat) (inside : place < text.length) :
        (encode (text.take (place + 1))).length ≤ byte ↔ place < charOffset text byte := by
      rw [← Nat.succ_le_iff,le_charOffset_iff,length_encode]
      exact ⟨fun reached => ⟨inside,reached⟩,And.right⟩
    obtain ⟨later,split⟩ := Nat.exists_eq_add_of_le (charOffset_le_length text byte)
    rw [List.countP_congr (q := fun place => place < charOffset text byte) fun place member => by
      simpa using ends place (List.mem_range.mp member)]
    rw [split,List.range_add,List.countP_append,List.countP_eq_length.mpr (by simp),
      List.countP_eq_zero.mpr (by simp),List.length_range,Nat.add_zero]
  · have front := charOffset_append (text.take count) (text.drop count)
    rwa [List.take_append_drop,List.length_take,← length_encode] at front

end VueScope.Text

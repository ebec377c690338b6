import Mathlib.Tactic.Lemma
import Mathlib.Tactic.SplitIfs
import MediaGraph.Json.Utf8

/-!
# Bytes of a text

The bytes that a text is stored as are read back as its characters. A character takes one to four
bytes by its size; which halves of pairs and overlong forms are refused never comes up, because a
character is neither.

## Main results

* `MediaGraph.Json.decodeUtf8_encodeChar` — the bytes of one character.
* `MediaGraph.Json.decodeUtf8_toUTF8` — the bytes of a text.
-/

set_option autoImplicit false

namespace MediaGraph.Json

/-! ## One character -/

lemma decodeUtf8_cons {a : UInt8} {rest : List UInt8} {symbol : Symbol} {further : Nat}
    (h : decodeFront a rest = (symbol, further)) :
    decodeUtf8 (a :: rest) = symbol :: decodeUtf8 (rest.drop further) := by
  rw [decodeUtf8, h]

lemma toNat_ofNat_of_lt {n : Nat} (h : n < 256) : (UInt8.ofNat n).toNat = n := by
  simpa using Nat.mod_eq_of_lt h

/-- A character is no half of a pair and not beyond the last character. -/
lemma toNat_valid (c : Char) : c.toNat < 0xD800 ∨ 0xDFFF < c.toNat ∧ c.toNat < 0x110000 := c.valid

/-- The second byte of a character is in the range of all further bytes but for four first bytes. -/
lemma isSecond_of {a b : Nat} (hb : 0x80 ≤ b ∧ b ≤ 0xBF) (hE0 : a = 0xE0 → 0xA0 ≤ b)
    (hED : a = 0xED → b ≤ 0x9F) (hF0 : a = 0xF0 → 0x90 ≤ b) (hF4 : a = 0xF4 → b ≤ 0x8F) :
    isSecond a b = true := by
  rw [isSecond, Bool.and_eq_true, decide_eq_true_iff, decide_eq_true_iff]
  unfold leastSecond greatestSecond
  split_ifs <;> omega

section Front

variable {a b c d : Nat} (rest : List UInt8)

lemma decodeFront_one (ha : a < 0x80) :
    decodeFront (UInt8.ofNat a) rest = (some (Char.ofNat a), 0) := by
  rw [decodeFront, toNat_ofNat_of_lt (by omega)]
  simp [ha]

lemma decodeFront_two (ha : 0xC2 ≤ a ∧ a ≤ 0xDF) (hb : 0x80 ≤ b ∧ b ≤ 0xBF) :
    decodeFront (UInt8.ofNat a) (UInt8.ofNat b :: rest) =
      (some (Char.ofNat ((a - 0xC0) * 64 + (b - 0x80))), 1) := by
  have hsecond : isSecond a b = true := isSecond_of hb (by omega) (by omega) (by omega) (by omega)
  have hlow : ¬ a < 0x80 := by omega
  simp only [decodeFront, toNat_ofNat_of_lt (show a < 256 by omega), List.map_cons,
    toNat_ofNat_of_lt (show b < 256 by omega), hsecond]
  simp [hlow, ha]

lemma decodeFront_three (ha : 0xE0 ≤ a ∧ a ≤ 0xEF) (hb : isSecond a b = true)
    (hb' : b < 256) (hc : 0x80 ≤ c ∧ c ≤ 0xBF) :
    decodeFront (UInt8.ofNat a) (UInt8.ofNat b :: UInt8.ofNat c :: rest) =
      (some (Char.ofNat ((a - 0xE0) * 4096 + (b - 0x80) * 64 + (c - 0x80))), 2) := by
  have hlow : ¬ a < 0x80 := by omega
  have htwo : ¬ a ≤ 0xDF := by omega
  have hfurther : isFurther c = true := by simpa [isFurther] using hc
  simp only [decodeFront, toNat_ofNat_of_lt (show a < 256 by omega), List.map_cons,
    toNat_ofNat_of_lt hb', toNat_ofNat_of_lt (show c < 256 by omega), hb, hfurther]
  simp [hlow, htwo, ha]

lemma decodeFront_four (ha : 0xF0 ≤ a ∧ a ≤ 0xF4) (hb : isSecond a b = true)
    (hb' : b < 256) (hc : 0x80 ≤ c ∧ c ≤ 0xBF) (hd : 0x80 ≤ d ∧ d ≤ 0xBF) :
    decodeFront (UInt8.ofNat a) (UInt8.ofNat b :: UInt8.ofNat c :: UInt8.ofNat d :: rest) =
      (some (Char.ofNat
        ((a - 0xF0) * 262144 + (b - 0x80) * 4096 + (c - 0x80) * 64 + (d - 0x80))), 3) := by
  have hlow : ¬ a < 0x80 := by omega
  have htwo : ¬ a ≤ 0xDF := by omega
  have hthree : ¬ a ≤ 0xEF := by omega
  have hc' : isFurther c = true := by simpa [isFurther] using hc
  have hd' : isFurther d = true := by simpa [isFurther] using hd
  simp only [decodeFront, toNat_ofNat_of_lt (show a < 256 by omega), List.map_cons,
    toNat_ofNat_of_lt hb', toNat_ofNat_of_lt (show c < 256 by omega),
    toNat_ofNat_of_lt (show d < 256 by omega), hb, hc', hd']
  simp [hlow, htwo, hthree, ha]

end Front

/-- **The bytes of a character are read back as it.** -/
theorem decodeUtf8_encodeChar (c : Char) (rest : List UInt8) :
    decodeUtf8 (String.utf8EncodeChar c ++ rest) = some c :: decodeUtf8 rest := by
  have hvalid := toNat_valid c
  have hchar : ∀ n, n = c.toNat → Char.ofNat n = c := by
    rintro n rfl
    exact c.ofNat_toNat
  have hval : c.val.toNat = c.toNat := rfl
  unfold String.utf8EncodeChar
  simp only [hval]
  generalize c.toNat = v at hvalid hchar
  split_ifs with h₁ h₂ h₃
  · have hfront := decodeFront_one rest (show v < 0x80 by omega)
    rw [List.singleton_append, decodeUtf8_cons hfront, hchar v rfl, List.drop_zero]
  · have hfront := decodeFront_two rest (a := v / 64 % 32 + 192) (b := v % 64 + 128) (by omega)
      (by omega)
    rw [List.cons_append, List.singleton_append, decodeUtf8_cons hfront, hchar _ (by omega)]
    rfl
  · have hfront := decodeFront_three rest (a := v / 4096 % 16 + 224) (b := v / 64 % 64 + 128)
      (c := v % 64 + 128) (by omega)
      (isSecond_of (by omega) (by omega) (by omega) (by omega) (by omega)) (by omega) (by omega)
    rw [List.cons_append, List.cons_append, List.singleton_append, decodeUtf8_cons hfront,
      hchar _ (by omega)]
    rfl
  · have hfront := decodeFront_four rest (a := v / 262144 % 8 + 240) (b := v / 4096 % 64 + 128)
      (c := v / 64 % 64 + 128) (d := v % 64 + 128) (by omega)
      (isSecond_of (by omega) (by omega) (by omega) (by omega) (by omega)) (by omega) (by omega)
      (by omega)
    rw [List.cons_append, List.cons_append, List.cons_append, List.singleton_append,
      decodeUtf8_cons hfront, hchar _ (by omega)]
    rfl

/-! ## Texts -/

lemma decodeUtf8_flatMap (cs : List Char) :
    decodeUtf8 (cs.flatMap String.utf8EncodeChar) = cs.map some := by
  induction cs with
  | nil => simp [decodeUtf8]
  | cons c rest ih => rw [List.flatMap_cons, decodeUtf8_encodeChar, ih, List.map_cons]

/-- The list of bytes is made byte by byte, with those read so far in reverse. -/
lemma toList_loop (bytes : ByteArray) (i : Nat) (read : List UInt8) :
    ByteArray.toList.loop bytes i read = read.reverse ++ bytes.data.toList.drop i := by
  induction i, read using ByteArray.toList.loop.induct bytes with
  | case1 i read hi ih =>
    have hdrop : bytes.data.toList.drop i = bytes.get! i :: bytes.data.toList.drop (i + 1) := by
      have hi' : i < bytes.data.size := hi
      have hget : bytes.get! i = bytes.data[i] := getElem!_pos bytes.data i hi'
      rw [hget, ← Array.getElem_toList, List.drop_eq_getElem_cons]
    rw [ByteArray.toList.loop.eq_def, if_pos hi, ih, hdrop]
    simp
  | case2 i read hi =>
    have hdrop : bytes.data.toList.drop i = [] := by
      rw [List.drop_eq_nil_iff]
      simpa using hi
    rw [ByteArray.toList.loop.eq_def, if_neg hi, hdrop, List.append_nil]

/-- **The bytes of a text are read back as its characters.** -/
theorem decodeUtf8_toUTF8 (s : String) : decodeUtf8 s.toUTF8.toList = symbols s := by
  have hbytes : s.toUTF8.toList = s.toList.flatMap String.utf8EncodeChar := by
    have hdata : s.toUTF8 = (s.toList.flatMap String.utf8EncodeChar).toByteArray := by
      rw [String.toUTF8_eq_toByteArray, ← String.ofList_toList (s := s), String.toByteArray_ofList]
      simp [List.utf8Encode]
    rw [ByteArray.toList, toList_loop, hdata, List.toList_data_toByteArray]
    rfl
  rw [hbytes, decodeUtf8_flatMap, symbols]

end MediaGraph.Json

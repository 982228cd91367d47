import Mathlib.Tactic.IntervalCases
import ApiDoc.Text.Charset

/-!
# Reading back what was written

Texts are written in UTF-8. Read in UTF-8, their bytes are the same text: each character is written
with the lead byte that announces its length, and its other bytes lie in the ranges that rule out
overlong forms and surrogates. Read in another encoding, a character below 128 is still itself, and
every other one becomes characters from 128 on.

* `toList_toUTF8`: the bytes of a text, character by character.
* `decodeUtf8_encodeChar`: one character in front of any bytes.
* `decode_utf8`: a whole text.
* `suffix_of_signed`, `decode_latin1`, `decode_ascii`: the other encodings of single bytes.
* `star_notMem_decodeUtf16`: bytes taken in pairs, where a star needs a byte that is zero.
-/

namespace ApiDoc.Text

/-! ## The bytes of a text -/

theorem byteArray_loop (bytes : ByteArray) (i : Nat) (seen : List UInt8) :
    ByteArray.toList.loop bytes i seen = seen.reverse ++ bytes.data.toList.drop i := by
  fun_induction ByteArray.toList.loop bytes i seen with
  | case1 i seen h ih =>
    have hi : i < bytes.data.toList.length := h
    rw [ih, List.drop_eq_getElem_cons hi, List.reverse_cons, List.append_assoc]
    simp [ByteArray.get!, h]
  | case2 i seen h =>
    rw [List.drop_eq_nil_of_le (Nat.le_of_not_lt h), List.append_nil]

theorem toList_byteArray (bytes : ByteArray) : bytes.toList = bytes.data.toList :=
  byteArray_loop bytes 0 []

theorem toList_toUTF8 (s : String) : s.toUTF8.toList = s.toList.flatMap String.utf8EncodeChar := by
  have hbytes : s.toUTF8 = (s.toList.flatMap String.utf8EncodeChar).toByteArray :=
    String.utf8Encode_toList.symm
  rw [hbytes, toList_byteArray, List.toList_data_toByteArray]

/-! ## One character -/

theorem toNat_ofNat {n : Nat} (h : n < 256) : (UInt8.ofNat n).toNat = n := by
  rw [UInt8.toNat_ofNat']
  omega

/-- What `decodeUtf8` makes of the rest of the bytes behind a character. -/
def consChar (c : Char) : Except DecodeError (List Char) → Except DecodeError (List Char)
  | .error e => .error e
  | .ok cs => .ok (c :: cs)

theorem decodeUtf8_single {b : UInt8} (h : b < 0x80) (position : Nat) (rest : List UInt8) :
    decodeUtf8 position (b :: rest) =
      consChar (Char.ofNat b.toNat) (decodeUtf8 (position + 1) rest) := by
  rw [decodeUtf8, if_pos h]
  rfl

theorem decodeUtf8_lead {b : UInt8} {l : Lead} {bytes rest : List UInt8} {n : Nat}
    (hb : ¬ b < 0x80) (hlead : lead? b = some l)
    (hread : readContinuation l.count l.bits l.low l.high 1 bytes = .ok (n, rest))
    (position : Nat) :
    decodeUtf8 position (b :: bytes) =
      consChar (Char.ofNat n) (decodeUtf8 (position + 1 + l.count) rest) := by
  rw [decodeUtf8, if_neg hb]
  split
  · next hnone =>
    rw [hlead] at hnone
    cases hnone
  · next l' hl' =>
    obtain rfl := Option.some.inj (hlead.symm.trans hl')
    split
    · next herror =>
      rw [hread] at herror
      cases herror
    · next hok =>
      rw [hread] at hok
      cases hok
      rfl

theorem readContinuation_cons {low high : UInt8} {n : Nat} (hn : n < 64)
    (hlow : low.toNat ≤ n + 0x80) (hhigh : n + 0x80 ≤ high.toNat) (count value seen : Nat)
    (rest : List UInt8) :
    readContinuation (count + 1) value low high seen (UInt8.ofNat (n + 0x80) :: rest) =
      readContinuation count (value * 64 + n) 0x80 0xBF (seen + 1) rest := by
  have hbyte : (UInt8.ofNat (n + 0x80)).toNat = n + 0x80 := toNat_ofNat (by omega)
  rw [readContinuation, if_pos, hbyte, Nat.add_sub_cancel]
  rw [UInt8.le_iff_toNat_le, UInt8.le_iff_toNat_le, hbyte]
  exact ⟨hlow, hhigh⟩

section

variable {n : Nat}

theorem lead?_two (h : 2 ≤ n) (h' : n < 32) :
    lead? (UInt8.ofNat (n + 0xC0)) = some ⟨1, n, 0x80, 0xBF⟩ := by
  interval_cases n <;> rfl

theorem lead?_three (h : n < 16) :
    lead? (UInt8.ofNat (n + 0xE0)) =
      some ⟨2, n, if n = 0 then 0xA0 else 0x80, if n = 13 then 0x9F else 0xBF⟩ := by
  interval_cases n <;> rfl

theorem lead?_four (h : n < 5) :
    lead? (UInt8.ofNat (n + 0xF0)) =
      some ⟨3, n, if n = 0 then 0x90 else 0x80, if n = 4 then 0x8F else 0xBF⟩ := by
  interval_cases n <;> rfl

theorem not_lt_of_lead {b : UInt8} {l : Lead} (h : lead? b = some l) : ¬ b < 0x80 := by
  intro hb
  have hsmall : b < 0xC2 := UInt8.lt_trans hb (by decide)
  rw [lead?, if_pos hsmall] at h
  cases h

end

section

variable {p : Prop} [Decidable p] {a b : UInt8} {m : Nat}

theorem toNat_low (ha : p → a.toNat ≤ m) (hb : b.toNat ≤ m) : (if p then a else b).toNat ≤ m := by
  split
  · exact ha ‹p›
  · exact hb

theorem toNat_high (ha : p → m ≤ a.toNat) (hb : m ≤ b.toNat) : m ≤ (if p then a else b).toNat := by
  split
  · exact ha ‹p›
  · exact hb

end

section

variable {v : Nat} (position : Nat) (rest : List UInt8)

theorem decodeUtf8_two (h : 0x7F < v) (h' : v ≤ 0x7FF) :
    decodeUtf8 position
        (UInt8.ofNat (v / 64 % 32 + 0xC0) :: UInt8.ofNat (v % 64 + 0x80) :: rest) =
      consChar (Char.ofNat v) (decodeUtf8 (position + 2) rest) := by
  have hlead := lead?_two (n := v / 64 % 32) (by omega) (by omega)
  refine decodeUtf8_lead (not_lt_of_lead hlead) hlead ?_ position
  rw [readContinuation_cons, readContinuation]
  · have hvalue : v / 64 % 32 * 64 + v % 64 = v := by omega
    exact congrArg (fun n => Except.ok (n, rest)) hvalue
  · omega
  · change 0x80 ≤ _
    omega
  · change _ ≤ 0xBF
    omega

theorem decodeUtf8_three (h : 0x7FF < v) (h' : v ≤ 0xFFFF) (hv : v < 0xD800 ∨ 0xDFFF < v) :
    decodeUtf8 position
        (UInt8.ofNat (v / 4096 % 16 + 0xE0) :: UInt8.ofNat (v / 64 % 64 + 0x80) ::
          UInt8.ofNat (v % 64 + 0x80) :: rest) =
      consChar (Char.ofNat v) (decodeUtf8 (position + 3) rest) := by
  have hlead := lead?_three (n := v / 4096 % 16) (by omega)
  refine decodeUtf8_lead (not_lt_of_lead hlead) hlead ?_ position
  rw [readContinuation_cons, readContinuation_cons, readContinuation]
  · have hvalue : (v / 4096 % 16 * 64 + v / 64 % 64) * 64 + v % 64 = v := by omega
    exact congrArg (fun n => Except.ok (n, rest)) hvalue
  · omega
  · change 0x80 ≤ _
    omega
  · change _ ≤ 0xBF
    omega
  · omega
  · -- no number below 0x800
    apply toNat_low
    · intro hfirst
      change 0xA0 ≤ _
      omega
    · change 0x80 ≤ _
      omega
  · -- no surrogate
    apply toNat_high
    · intro hfirst
      change _ ≤ 0x9F
      omega
    · change _ ≤ 0xBF
      omega

theorem decodeUtf8_four (h : 0xFFFF < v) (h' : v < 0x110000) :
    decodeUtf8 position
        (UInt8.ofNat (v / 262144 % 8 + 0xF0) :: UInt8.ofNat (v / 4096 % 64 + 0x80) ::
          UInt8.ofNat (v / 64 % 64 + 0x80) :: UInt8.ofNat (v % 64 + 0x80) :: rest) =
      consChar (Char.ofNat v) (decodeUtf8 (position + 4) rest) := by
  have hlead := lead?_four (n := v / 262144 % 8) (by omega)
  refine decodeUtf8_lead (not_lt_of_lead hlead) hlead ?_ position
  rw [readContinuation_cons, readContinuation_cons, readContinuation_cons, readContinuation]
  · have hvalue :
        ((v / 262144 % 8 * 64 + v / 4096 % 64) * 64 + v / 64 % 64) * 64 + v % 64 = v := by omega
    exact congrArg (fun n => Except.ok (n, rest)) hvalue
  · omega
  · change 0x80 ≤ _
    omega
  · change _ ≤ 0xBF
    omega
  · omega
  · change 0x80 ≤ _
    omega
  · change _ ≤ 0xBF
    omega
  · omega
  · -- no number below 0x10000
    apply toNat_low
    · intro hfirst
      change 0x90 ≤ _
      omega
    · change 0x80 ≤ _
      omega
  · -- no number beyond the last character
    apply toNat_high
    · intro hfirst
      change _ ≤ 0x8F
      omega
    · change _ ≤ 0xBF
      omega

end

/-- The bytes of a character are read back as this character. -/
theorem decodeUtf8_encodeChar (c : Char) (position : Nat) (rest : List UInt8) :
    decodeUtf8 position (String.utf8EncodeChar c ++ rest) =
      consChar c (decodeUtf8 (position + (String.utf8EncodeChar c).length) rest) := by
  have hscalar : c.toNat < 0xD800 ∨ 0xDFFF < c.toNat ∧ c.toNat < 0x110000 := c.valid
  have hvalue : c.val.toNat = c.toNat := rfl
  have hchar := Char.ofNat_toNat c
  unfold String.utf8EncodeChar
  simp only [hvalue]
  split
  · have hbyte : (UInt8.ofNat c.toNat).toNat = c.toNat := toNat_ofNat (by omega)
    rw [List.singleton_append, decodeUtf8_single, hbyte, hchar]
    · rfl
    · rw [UInt8.lt_iff_toNat_lt, hbyte]
      change _ < 0x80
      omega
  · split
    · have htwo := decodeUtf8_two (v := c.toNat) position rest (by omega) (by omega)
      rw [hchar] at htwo
      exact htwo
    · split
      · have hthree := decodeUtf8_three (v := c.toNat) position rest (by omega) (by omega) (by omega)
        rw [hchar] at hthree
        exact hthree
      · have hfour := decodeUtf8_four (v := c.toNat) position rest (by omega) (by omega)
        rw [hchar] at hfour
        exact hfour

/-! ## A whole text -/

theorem decodeUtf8_encode (cs : List Char) (position : Nat) :
    decodeUtf8 position (cs.flatMap String.utf8EncodeChar) = .ok cs := by
  induction cs generalizing position with
  | nil => rw [List.flatMap_nil, decodeUtf8]
  | cons c cs ih => rw [List.flatMap_cons, decodeUtf8_encodeChar, ih, consChar]

theorem decode_utf8 (s : String) : Charset.utf8.decode s.toUTF8.toList = .ok s.toList := by
  rw [Charset.decode, toList_toUTF8, decodeUtf8_encode]

/-! ## In other encodings -/

theorem ok_of_consChar {c : Char} {r : Except DecodeError (List Char)} {cs : List Char}
    (h : consChar c r = .ok cs) : ∃ tail, r = .ok tail ∧ cs = c :: tail := by
  cases r with
  | error e => cases h
  | ok tail =>
    cases h
    exact ⟨tail, rfl, rfl⟩

/-- The position matters for errors only. -/
theorem decodeUtf8_position {bytes : List UInt8} {position : Nat} {cs : List Char}
    (h : decodeUtf8 position bytes = .ok cs) (position' : Nat) :
    decodeUtf8 position' bytes = .ok cs := by
  fun_induction decodeUtf8 position bytes generalizing position' cs with
  | case1 => rwa [decodeUtf8]
  | case2 => cases h
  | case3 position b rest hb cs' hrest ih =>
    cases h
    rw [decodeUtf8_single hb, ih hrest]
    rfl
  | case4 => cases h
  | case5 => cases h
  | case6 => cases h
  | case7 position b rest hb l hlead n rest' hread _ cs' hrest ih =>
    cases h
    rw [decodeUtf8_lead hb hlead hread, ih hrest]
    rfl

theorem suffix_of_signed {s : String} {cs : List Char}
    (h : Charset.utf8Signed.decode s.toUTF8.toList = .ok cs) : cs <:+ s.toList := by
  have hall := decode_utf8 s
  change decodeUtf8 0 _ = _ at hall
  change decodeUtf8 0 (dropSignature _) = _ at h
  unfold dropSignature at h
  split at h
  · rw [decodeUtf8] at h
    cases h
    exact List.nil_suffix
  · rw [decodeUtf8] at h
    cases h
    exact List.nil_suffix
  · next rest he =>
    -- the mark is a character of its own, and the rest is read as before
    have hmark := decodeUtf8_three (v := 0xFEFF) 0 rest (by omega) (by omega) (by omega)
    rw [he] at hall
    obtain ⟨tail, htail, hs⟩ := ok_of_consChar (hmark.symm.trans hall)
    have hrest := decodeUtf8_position htail 0
    rw [h] at hrest
    cases hrest
    rw [hs]
    exact List.suffix_cons _ _
  · rw [h] at hall
    cases hall
    exact List.suffix_rfl

/-- The bytes of a character, each taken for a character of its own. -/
def byteChars (c : Char) : List Char :=
  (String.utf8EncodeChar c).map fun b => Char.ofNat b.toNat

theorem toNat_charOfByte (b : UInt8) : (Char.ofNat b.toNat).toNat = b.toNat := by
  have hb := b.toNat_lt
  have hvalid : Nat.isValidChar b.toNat := Or.inl (by omega)
  rw [Char.ofNat, dif_pos hvalid]
  rfl

theorem byteChars_cases (c : Char) :
    byteChars c = [c] ∨ byteChars c ≠ [] ∧ ∀ d ∈ byteChars c, 0x80 ≤ d.toNat := by
  -- every byte of a longer form has a mark of 0x80 or more
  have hmarked : ∀ n m, n + m < 256 → 0x80 ≤ m →
      0x80 ≤ (Char.ofNat (UInt8.ofNat (n + m)).toNat).toNat := by
    intro n m hlt hm
    rw [toNat_charOfByte, toNat_ofNat hlt]
    omega
  have hvalue : c.val.toNat = c.toNat := rfl
  unfold byteChars String.utf8EncodeChar
  simp only [hvalue]
  split
  · refine Or.inl ?_
    rw [List.map_singleton, toNat_ofNat (by omega), Char.ofNat_toNat]
  · refine Or.inr ⟨?_, ?_⟩
    · split
      · exact List.cons_ne_nil _ _
      · split <;> exact List.cons_ne_nil _ _
    · split
      · simp only [List.map_cons, List.map_nil, List.forall_mem_cons]
        refine ⟨?_, ?_, List.forall_mem_nil _⟩ <;> exact hmarked _ _ (by omega) (by omega)
      · split
        · simp only [List.map_cons, List.map_nil, List.forall_mem_cons]
          refine ⟨?_, ?_, ?_, List.forall_mem_nil _⟩ <;> exact hmarked _ _ (by omega) (by omega)
        · simp only [List.map_cons, List.map_nil, List.forall_mem_cons]
          refine ⟨?_, ?_, ?_, ?_, List.forall_mem_nil _⟩ <;> exact hmarked _ _ (by omega) (by omega)

theorem decode_latin1 (s : String) :
    Charset.latin1.decode s.toUTF8.toList = .ok (s.toList.flatMap byteChars) := by
  rw [Charset.decode, toList_toUTF8, List.map_flatMap]
  rfl

theorem map_of_decodeAscii {bytes : List UInt8} {position : Nat} {cs : List Char}
    (h : decodeAscii position bytes = .ok cs) : cs = bytes.map fun b => Char.ofNat b.toNat := by
  induction bytes generalizing position cs with
  | nil =>
    cases h
    rfl
  | cons b bytes ih =>
    rw [decodeAscii] at h
    split at h
    · split at h
      · cases h
      · next cs' hrest =>
        cases h
        rw [ih hrest, List.map_cons]
    · cases h

theorem decode_ascii {s : String} {cs : List Char}
    (h : Charset.ascii.decode s.toUTF8.toList = .ok cs) : cs = s.toList.flatMap byteChars := by
  rw [Charset.decode, toList_toUTF8] at h
  rw [map_of_decodeAscii h, List.map_flatMap]
  rfl

/-! ## In pairs of bytes -/

theorem zero_notMem_toUTF8 {s : String} (h : Char.ofNat 0 ∉ s.toList) : 0 ∉ s.toUTF8.toList := by
  rw [toList_toUTF8]
  intro hmem
  obtain ⟨c, hc, hbyte⟩ := List.mem_flatMap.1 hmem
  have hchar : Char.ofNat 0 ∈ byteChars c := List.mem_map.2 ⟨0, hbyte, rfl⟩
  rcases byteChars_cases c with hone | ⟨-, hmany⟩
  · rw [hone] at hchar
    exact h (List.mem_singleton.1 hchar ▸ hc)
  · exact absurd (hmany _ hchar) (by decide)

theorem ofNat_ne_star {n : Nat} (h : 0x100 ≤ n) : Char.ofNat n ≠ '*' := by
  intro he
  have hvalue : (Char.ofNat n).toNat = 42 := congrArg Char.toNat he
  by_cases hvalid : n.isValidChar
  · rw [Char.ofNat, dif_pos hvalid] at hvalue
    change n = 42 at hvalue
    omega
  · rw [Char.ofNat, dif_neg hvalid] at hvalue
    exact absurd hvalue (by decide)

theorem unit16_ge {a b : UInt8} (hb : b ≠ 0) : 0x100 ≤ unit16 a b := by
  have hpos : 0 < b.toNat := Nat.pos_of_ne_zero fun he => hb (UInt8.toNat_inj.1 he)
  unfold unit16
  omega

theorem star_notMem_cons {n : Nat} (hn : 0x100 ≤ n) {cs : List Char} (h : '*' ∉ cs) :
    '*' ∉ Char.ofNat n :: cs :=
  List.not_mem_cons_of_ne_of_not_mem (ofNat_ne_star hn).symm h

/-- The second byte of a star is zero. -/
theorem star_notMem_decodeUtf16 {bytes : List UInt8} (hbytes : 0 ∉ bytes) {position : Nat}
    {cs : List Char} (h : decodeUtf16 position bytes = .ok cs) : '*' ∉ cs := by
  fun_induction decodeUtf16 position bytes generalizing cs with
  | case1 =>
    cases h
    exact List.not_mem_nil
  | case4 position a b c d rest u v _ _ cs' hrest =>
    rename_i ih
    cases h
    simp only [List.mem_cons, not_or] at hbytes
    exact star_notMem_cons (by omega) (ih hbytes.2.2.2.2 hrest)
  | case8 position a b c d rest u _ _ cs' hrest =>
    rename_i ih
    cases h
    rw [List.mem_cons, List.mem_cons, not_or, not_or] at hbytes
    exact star_notMem_cons (unit16_ge (Ne.symm hbytes.2.1)) (ih hbytes.2.2 hrest)
  | case12 position a b rest _ u _ _ cs' hrest =>
    rename_i ih
    cases h
    rw [List.mem_cons, List.mem_cons, not_or, not_or] at hbytes
    exact star_notMem_cons (unit16_ge (Ne.symm hbytes.2.1)) (ih hbytes.2.2 hrest)
  | _ => cases h

end ApiDoc.Text

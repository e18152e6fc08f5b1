import Agenda.Text.Utf8

/-!
# UTF-8 is read back

A character is encoded by one to four bytes, whose payloads are the digits of its number to base 64.
Decoding takes them for that character again, whatever follows: second bytes are bounded so that no
number of fewer bytes, no surrogate and nothing above U+10FFFF gets in, and the bounds are met by
every character.

* `next_utf8EncodeChar`: one character is read back.
* `decode_encode`: decoding undoes encoding.
* `utf8EncodeChar_of_lt`, `le_of_mem_utf8EncodeChar`: ASCII is one byte each, and no byte of another
  character is ASCII.
-/
namespace Agenda.Text.Utf8

/-! ## Encoded texts -/

theorem encode_cons (c : Char) (cs : List Char) :
    encode (c :: cs) = String.utf8EncodeChar c ++ encode cs := rfl

theorem encode_append (cs ds : List Char) : encode (cs ++ ds) = encode cs ++ encode ds :=
  List.flatMap_append

/-! ## Bytes -/

theorem between_iff {n : Nat} (h : n < 256) {low high : UInt8} :
    low ≤ UInt8.ofNat n ∧ UInt8.ofNat n ≤ high ↔ low.toNat ≤ n ∧ n ≤ high.toNat := by
  rw [UInt8.le_ofNat_iff h, UInt8.ofNat_le_iff h]

theorem eq_iff {n : Nat} (h : n < 256) {b : UInt8} : UInt8.ofNat n = b ↔ n = b.toNat := by
  rw [← UInt8.toNat_inj, UInt8.toNat_ofNat_of_lt' h]

theorem isFollowing_ofNat {n : Nat} (h : n < 64) : isFollowing (UInt8.ofNat (n + 128)) = true := by
  have hn : n + 128 < 256 := by omega
  rw [isFollowing, Bool.and_eq_true, decide_eq_true_eq, decide_eq_true_eq, between_iff hn]
  simp only [UInt8.reduceToNat]
  omega

theorem addBits_ofNat (m : Nat) {n : Nat} (h : n < 64) :
    addBits m (UInt8.ofNat (n + 128)) = 64 * m + n := by
  have hn : n + 128 < 256 := by omega
  unfold addBits
  rw [UInt8.toNat_ofNat_of_lt' hn]
  omega

/-- After a first byte of three, a second byte that is too small would encode a number of two bytes,
and one that is too large a surrogate. -/
theorem isSecond_three {l m : Nat} (hl : l < 16) (hm : m < 64) (h₁ : 32 ≤ 64 * l + m)
    (h₂ : 64 * l + m < 864 ∨ 896 ≤ 64 * l + m) :
    isSecond (UInt8.ofNat (l + 224)) (UInt8.ofNat (m + 128)) = true := by
  have hl' : l + 224 < 256 := by omega
  have hm' : m + 128 < 256 := by omega
  rw [isSecond, Bool.and_eq_true, decide_eq_true_eq, decide_eq_true_eq, between_iff hm',
    secondRange]
  simp only [eq_iff hl', UInt8.reduceToNat]
  repeat' split
  all_goals simp only [UInt8.reduceToNat]; omega

/-- After a first byte of four, the second byte keeps the number between U+10000 and U+10FFFF. -/
theorem isSecond_four {k l : Nat} (hk : k < 8) (hl : l < 64) (h₁ : 16 ≤ 64 * k + l)
    (h₂ : 64 * k + l < 272) :
    isSecond (UInt8.ofNat (k + 240)) (UInt8.ofNat (l + 128)) = true := by
  have hk' : k + 240 < 256 := by omega
  have hl' : l + 128 < 256 := by omega
  rw [isSecond, Bool.and_eq_true, decide_eq_true_eq, decide_eq_true_eq, between_iff hl',
    secondRange]
  simp only [eq_iff hk', UInt8.reduceToNat]
  repeat' split
  all_goals simp only [UInt8.reduceToNat]; omega

/-! ## One character -/

theorem next_one {n : Nat} (h : n < 128) (s : List UInt8) :
    next (UInt8.ofNat n :: s) = .char (Char.ofNat n) s := by
  have hn : n < 256 := by omega
  have h80 : UInt8.ofNat n < 0x80 := (UInt8.ofNat_lt_iff hn).2 h
  unfold next
  dsimp only
  rw [if_pos h80, UInt8.toNat_ofNat_of_lt' hn]

theorem next_two {m n : Nat} (h₁ : 2 ≤ m) (h₂ : m < 32) (hn : n < 64) (s : List UInt8) :
    next (UInt8.ofNat (m + 192) :: UInt8.ofNat (n + 128) :: s) =
      .char (Char.ofNat (64 * m + n)) s := by
  have hm : m + 192 < 256 := by omega
  have hc2 : 0xC2 ≤ UInt8.ofNat (m + 192) ∧ UInt8.ofNat (m + 192) ≤ 0xDF := by
    rw [between_iff hm]
    simp only [UInt8.reduceToNat]
    omega
  have h80 : ¬ UInt8.ofNat (m + 192) < 0x80 := by
    rw [UInt8.ofNat_lt_iff hm]
    simp only [UInt8.reduceToNat]
    omega
  unfold next
  dsimp only
  rw [if_neg h80, if_pos hc2, if_pos (isFollowing_ofNat hn), UInt8.toNat_ofNat_of_lt' hm,
    Nat.add_sub_cancel, addBits_ofNat _ hn]

theorem next_three {l m n : Nat} (hl : l < 16) (hm : m < 64) (hn : n < 64)
    (h₁ : 32 ≤ 64 * l + m) (h₂ : 64 * l + m < 864 ∨ 896 ≤ 64 * l + m) (s : List UInt8) :
    next (UInt8.ofNat (l + 224) :: UInt8.ofNat (m + 128) :: UInt8.ofNat (n + 128) :: s) =
      .char (Char.ofNat (64 * (64 * l + m) + n)) s := by
  have ha : l + 224 < 256 := by omega
  have he0 : 0xE0 ≤ UInt8.ofNat (l + 224) ∧ UInt8.ofNat (l + 224) ≤ 0xEF := by
    rw [between_iff ha]
    simp only [UInt8.reduceToNat]
    omega
  have hc2 : ¬ (0xC2 ≤ UInt8.ofNat (l + 224) ∧ UInt8.ofNat (l + 224) ≤ 0xDF) := by
    rw [between_iff ha]
    simp only [UInt8.reduceToNat]
    omega
  have h80 : ¬ UInt8.ofNat (l + 224) < 0x80 := by
    rw [UInt8.ofNat_lt_iff ha]
    simp only [UInt8.reduceToNat]
    omega
  unfold next
  dsimp only
  rw [if_neg h80, if_neg hc2, if_pos he0, if_pos (isSecond_three hl hm h₁ h₂),
    if_pos (isFollowing_ofNat hn), UInt8.toNat_ofNat_of_lt' ha, Nat.add_sub_cancel,
    addBits_ofNat _ hm, addBits_ofNat _ hn]

theorem next_four {k l m n : Nat} (hk : k < 8) (hl : l < 64) (hm : m < 64) (hn : n < 64)
    (h₁ : 16 ≤ 64 * k + l) (h₂ : 64 * k + l < 272) (s : List UInt8) :
    next (UInt8.ofNat (k + 240) :: UInt8.ofNat (l + 128) :: UInt8.ofNat (m + 128) ::
      UInt8.ofNat (n + 128) :: s) =
      .char (Char.ofNat (64 * (64 * (64 * k + l) + m) + n)) s := by
  have ha : k + 240 < 256 := by omega
  have hf0 : 0xF0 ≤ UInt8.ofNat (k + 240) ∧ UInt8.ofNat (k + 240) ≤ 0xF4 := by
    rw [between_iff ha]
    simp only [UInt8.reduceToNat]
    omega
  have he0 : ¬ (0xE0 ≤ UInt8.ofNat (k + 240) ∧ UInt8.ofNat (k + 240) ≤ 0xEF) := by
    rw [between_iff ha]
    simp only [UInt8.reduceToNat]
    omega
  have hc2 : ¬ (0xC2 ≤ UInt8.ofNat (k + 240) ∧ UInt8.ofNat (k + 240) ≤ 0xDF) := by
    rw [between_iff ha]
    simp only [UInt8.reduceToNat]
    omega
  have h80 : ¬ UInt8.ofNat (k + 240) < 0x80 := by
    rw [UInt8.ofNat_lt_iff ha]
    simp only [UInt8.reduceToNat]
    omega
  unfold next
  dsimp only
  rw [if_neg h80, if_neg hc2, if_neg he0, if_pos hf0, if_pos (isSecond_four hk hl h₁ h₂),
    if_pos (isFollowing_ofNat hm), if_pos (isFollowing_ofNat hn), UInt8.toNat_ofNat_of_lt' ha,
    Nat.add_sub_cancel, addBits_ofNat _ hl, addBits_ofNat _ hm, addBits_ofNat _ hn]

/-- **One character.** It is read back from its encoding, whatever follows. -/
theorem next_utf8EncodeChar (c : Char) (s : List UInt8) :
    next (String.utf8EncodeChar c ++ s) = .char c s := by
  have hv : c.toNat < 0xD800 ∨ 0xDFFF < c.toNat ∧ c.toNat < 0x110000 := c.valid
  have hc : c.val.toNat = c.toNat := rfl
  rw [String.utf8EncodeChar]
  simp only [hc]
  split
  · have hn : c.toNat < 128 := by omega
    rw [List.singleton_append, next_one hn, Char.ofNat_toNat]
  · split
    · have hn : 64 * (c.toNat / 64 % 32) + c.toNat % 64 = c.toNat := by omega
      rw [List.cons_append, List.singleton_append,
        next_two (by omega) (by omega) (by omega), hn, Char.ofNat_toNat]
    · split
      · have hn : 64 * (64 * (c.toNat / 4096 % 16) + c.toNat / 64 % 64) + c.toNat % 64 =
          c.toNat := by omega
        rw [List.cons_append, List.cons_append, List.singleton_append,
          next_three (by omega) (by omega) (by omega) (by omega) (by omega), hn, Char.ofNat_toNat]
      · have hn : 64 * (64 * (64 * (c.toNat / 262144 % 8) + c.toNat / 4096 % 64) +
          c.toNat / 64 % 64) + c.toNat % 64 = c.toNat := by omega
        rw [List.cons_append, List.cons_append, List.cons_append, List.singleton_append,
          next_four (by omega) (by omega) (by omega) (by omega) (by omega) (by omega), hn,
          Char.ofNat_toNat]

/-! ## Texts -/

theorem decodeOnto_of_char {c : Char} {read : List Char} {s r : List UInt8}
    (h : next s = .char c r) : decodeOnto read s = decodeOnto (c :: read) r := by
  rw [decodeOnto]
  split
  · simp_all
  · rename_i d r' hd
    rw [h] at hd
    cases hd
    rfl
  · simp_all

theorem decodeOnto_encode (read cs : List Char) :
    decodeOnto read (encode cs) = .ok (read.reverse ++ cs) := by
  induction cs generalizing read with
  | nil =>
    rw [List.append_nil, decodeOnto]
    rfl
  | cons c cs ih =>
    rw [encode_cons, decodeOnto_of_char (next_utf8EncodeChar c _), ih, List.reverse_cons,
      List.append_assoc, List.singleton_append]

/-- **Texts.** Decoding undoes encoding. -/
theorem decode_encode (cs : List Char) : decode (encode cs) = .ok cs := decodeOnto_encode [] cs

theorem decodeLossyOnto_of_char {c : Char} {read : List Char} {s r : List UInt8}
    (h : next s = .char c r) : decodeLossyOnto read s = decodeLossyOnto (c :: read) r := by
  rw [decodeLossyOnto]
  split
  · simp_all
  · rename_i d r' hd
    rw [h] at hd
    cases hd
    rfl
  · simp_all

theorem decodeLossyOnto_encode (read cs : List Char) :
    decodeLossyOnto read (encode cs) = read.reverse ++ cs := by
  induction cs generalizing read with
  | nil =>
    rw [List.append_nil, decodeLossyOnto]
    rfl
  | cons c cs ih =>
    rw [encode_cons, decodeLossyOnto_of_char (next_utf8EncodeChar c _), ih, List.reverse_cons,
      List.append_assoc, List.singleton_append]

/-- Nothing is replaced in the encoding of a text. -/
theorem decodeLossy_encode (cs : List Char) : decodeLossy (encode cs) = cs :=
  decodeLossyOnto_encode [] cs

/-! ## ASCII -/

theorem utf8EncodeChar_of_lt {c : Char} (h : c.toNat < 128) :
    String.utf8EncodeChar c = [UInt8.ofNat c.toNat] := by
  have hc : c.val.toNat ≤ 127 := Nat.le_of_lt_succ h
  rw [String.utf8EncodeChar]
  simp only [if_pos hc]
  rfl

theorem encode_ascii {c : Char} (h : c.toNat < 128) (cs : List Char) :
    encode (c :: cs) = UInt8.ofNat c.toNat :: encode cs := by
  rw [encode_cons, utf8EncodeChar_of_lt h]
  rfl

theorem le_of_mem_utf8EncodeChar {c : Char} {b : UInt8} (h : 128 ≤ c.toNat)
    (hb : b ∈ String.utf8EncodeChar c) : 128 ≤ b.toNat := by
  have hc : ¬ c.val.toNat ≤ 127 := Nat.not_le_of_lt h
  have hbyte {n : Nat} (h₁ : 128 ≤ n) (h₂ : n < 256) (he : b = UInt8.ofNat n) : 128 ≤ b.toNat := by
    rw [he, UInt8.toNat_ofNat_of_lt' h₂]
    exact h₁
  rw [String.utf8EncodeChar] at hb
  simp only [if_neg hc] at hb
  split at hb
  · simp only [List.mem_cons, List.not_mem_nil, or_false] at hb
    rcases hb with he | he
    all_goals exact hbyte (by omega) (by omega) he
  · split at hb
    · simp only [List.mem_cons, List.not_mem_nil, or_false] at hb
      rcases hb with he | he | he
      all_goals exact hbyte (by omega) (by omega) he
    · simp only [List.mem_cons, List.not_mem_nil, or_false] at hb
      rcases hb with he | he | he | he
      all_goals exact hbyte (by omega) (by omega) he

end Agenda.Text.Utf8

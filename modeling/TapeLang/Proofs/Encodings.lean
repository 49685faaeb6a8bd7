import TapeLang.Proofs.Texts
import TapeLang.Text.Utf8

/-!
# Encodings and the code of a text

The code of a text is made of its instruction characters in order, so it survives whatever changes
commentary alone. Reading what a text is encoded as gives the text back. Reading every byte as a
character of its own gives another text, but all instruction characters are single bytes and no
other character has a byte that is one of them. Making newlines plain touches none of them either.
-/

namespace TapeLang.Text

/-! ## Instruction characters -/

/-- Instruction characters have small code points. -/
theorem isInstruction_lt {c : Char} (h : isInstruction c = true) : c.toNat < 0x80 := by
  rcases isInstruction_cases h with ⟨o, rfl⟩ | rfl | rfl
  · cases o <;> decide
  · decide
  · decide

/-- Making newlines plain touches commentary alone. -/
theorem filter_plainNewlines (cs : List Char) :
    (plainNewlines cs).filter isInstruction = cs.filter isInstruction := by
  have hreturn : isInstruction '\r' = false := by decide
  have hnewline : isInstruction '\n' = false := by decide
  fun_induction plainNewlines cs <;> simp_all [List.filter_cons]

namespace Utf8

/-! ## The bytes of a character -/

/-- The bytes that a code point is encoded as. -/
inductive Encodes : (n : Nat) → List UInt8 → Prop where
  | one {n : Nat} {a : UInt8} (hn : n < 0x80) (ha : a.toNat = n) : Encodes n [a]
  | two {n : Nat} {a b : UInt8} (low : 0x80 ≤ n) (high : n < 0x800)
      (ha : a.toNat = 0xC0 + n / 0x40) (hb : b.toNat = 0x80 + n % 0x40) : Encodes n [a, b]
  | three {n : Nat} {a b c : UInt8} (low : 0x800 ≤ n) (high : n < 0x10000)
      (scalar : n < 0xD800 ∨ 0xDFFF < n) (ha : a.toNat = 0xE0 + n / 0x1000)
      (hb : b.toNat = 0x80 + n / 0x40 % 0x40) (hc : c.toNat = 0x80 + n % 0x40) :
      Encodes n [a, b, c]
  | four {n : Nat} {a b c d : UInt8} (low : 0x10000 ≤ n) (high : n < 0x110000)
      (ha : a.toNat = 0xF0 + n / 0x40000) (hb : b.toNat = 0x80 + n / 0x1000 % 0x40)
      (hc : c.toNat = 0x80 + n / 0x40 % 0x40) (hd : d.toNat = 0x80 + n % 0x40) :
      Encodes n [a, b, c, d]

theorem encodes_utf8EncodeChar (c : Char) : Encodes c.toNat (String.utf8EncodeChar c) := by
  have hvalid : c.toNat < 0xD800 ∨ 0xDFFF < c.toNat ∧ c.toNat < 0x110000 := c.valid
  have hval : c.val.toNat = c.toNat := rfl
  simp only [String.utf8EncodeChar, hval]
  split
  · exact .one (by omega) (by rw [UInt8.toNat_ofNat']; omega)
  · split
    · exact .two (by omega) (by omega) (by rw [UInt8.toNat_ofNat']; omega)
        (by rw [UInt8.toNat_ofNat']; omega)
    · split
      · exact .three (by omega) (by omega) (by omega) (by rw [UInt8.toNat_ofNat']; omega)
          (by rw [UInt8.toNat_ofNat']; omega) (by rw [UInt8.toNat_ofNat']; omega)
      · exact .four (by omega) (by omega) (by rw [UInt8.toNat_ofNat']; omega)
          (by rw [UInt8.toNat_ofNat']; omega) (by rw [UInt8.toNat_ofNat']; omega)
          (by rw [UInt8.toNat_ofNat']; omega)

/-- In the encoding of a large code point every byte is large. -/
theorem Encodes.le_of_mem {n : Nat} {bytes : List UInt8} (h : Encodes n bytes) (hn : 0x80 ≤ n)
    {b : UInt8} (hb : b ∈ bytes) : 0x80 ≤ b.toNat := by
  cases h with
  | one => omega
  | two | three | four =>
    simp only [List.mem_cons, List.not_mem_nil, or_false] at hb
    rcases hb with rfl | rfl | rfl | rfl <;> omega

/-! ## Reading what was encoded -/

variable {s : State} {p : Partial} {b : UInt8}

/-- A byte within its bounds is the last one of a character. -/
theorem State.step_last (h : s.open? = some (.part p)) (low : p.low ≤ b.toNat)
    (high : b.toNat ≤ p.high) (hmore : p.more = 1) :
    s.step b = .ok ⟨s.done.push (Char.ofNat (0x40 * p.value + b.toNat % 0x40)),
      s.position + p.count + 1, none⟩ := by
  rw [State.step, h]
  simp only [low, high, and_self, if_true, hmore, Nat.le_refl]

/-- A byte within its bounds goes on with a character. -/
theorem State.step_more (h : s.open? = some (.part p)) (low : p.low ≤ b.toNat)
    (high : b.toNat ≤ p.high) (hmore : 1 < p.more) :
    s.step b = .ok { s with
      open? := some (.part ⟨p.first, p.count + 1, p.more - 1, 0x80, 0xBF,
        0x40 * p.value + b.toNat % 0x40⟩) } := by
  rw [State.step, h]
  simp only [low, high, and_self, if_true, Nat.not_le.2 hmore, if_false]

/-- A byte that is a whole character is read as such. -/
theorem State.step_whole {c : Char} (h : s.open? = none) (hb : start b = .whole c) :
    s.step b = .ok ⟨s.done.push c, s.position + 1, none⟩ := by
  simp only [State.step, h, hb]

/-- A byte that begins a character opens it. -/
theorem State.step_first (h : s.open? = none) (hb : start b = .part p) :
    s.step b = .ok { s with open? := some (.part p) } := by
  simp only [State.step, h, hb]

theorem start_one {n : Nat} (hn : n < 0x80) (hb : b.toNat = n) :
    start b = .whole (Char.ofNat n) := by
  simp only [start, hb]
  rw [if_pos hn]

/-- The first of two bytes. -/
theorem start_two {n : Nat} (low : 0x80 ≤ n) (high : n < 0x800) (hb : b.toNat = 0xC0 + n / 0x40) :
    start b = .part ⟨b, 1, 1, 0x80, 0xBF, n / 0x40⟩ := by
  simp only [start, hb]
  rw [if_neg (by omega), if_neg (by omega), if_pos (by omega), Nat.add_sub_cancel_left]

/-- The first of three bytes, and the bounds of the second one. -/
theorem start_three {n : Nat} (low : 0x800 ≤ n) (high : n < 0x10000)
    (scalar : n < 0xD800 ∨ 0xDFFF < n) (hb : b.toNat = 0xE0 + n / 0x1000) :
    ∃ l h, start b = .part ⟨b, 1, 2, l, h, n / 0x1000⟩ ∧ l ≤ 0x80 + n / 0x40 % 0x40 ∧
      0x80 + n / 0x40 % 0x40 ≤ h := by
  have hsub : 0xE0 + n / 0x1000 - 0xE0 = n / 0x1000 := Nat.add_sub_cancel_left _ _
  simp only [start, hb]
  rw [if_neg (by omega), if_neg (by omega), if_neg (by omega)]
  by_cases hfirst : n / 0x1000 = 0
  · rw [if_pos (by omega), hfirst]
    exact ⟨_, _, rfl, by omega, by omega⟩
  · rw [if_neg (by omega)]
    by_cases hsurrogates : n / 0x1000 = 0xD
    · rw [if_pos (by omega), hsurrogates]
      exact ⟨_, _, rfl, by omega, by omega⟩
    · rw [if_neg (by omega), if_pos (by omega), hsub]
      exact ⟨_, _, rfl, by omega, by omega⟩

/-- The first of four bytes, and the bounds of the second one. -/
theorem start_four {n : Nat} (low : 0x10000 ≤ n) (high : n < 0x110000)
    (hb : b.toNat = 0xF0 + n / 0x40000) :
    ∃ l h, start b = .part ⟨b, 1, 3, l, h, n / 0x40000⟩ ∧ l ≤ 0x80 + n / 0x1000 % 0x40 ∧
      0x80 + n / 0x1000 % 0x40 ≤ h := by
  have hsub : 0xF0 + n / 0x40000 - 0xF0 = n / 0x40000 := Nat.add_sub_cancel_left _ _
  simp only [start, hb]
  rw [if_neg (by omega), if_neg (by omega), if_neg (by omega), if_neg (by omega),
    if_neg (by omega), if_neg (by omega)]
  by_cases hfirst : n / 0x40000 = 0
  · rw [if_pos (by omega), hfirst]
    exact ⟨_, _, rfl, by omega, by omega⟩
  · rw [if_neg (by omega)]
    by_cases hlast : n / 0x40000 = 4
    · rw [if_neg (by omega), if_pos (by omega), hlast]
      exact ⟨_, _, rfl, by omega, by omega⟩
    · rw [if_pos (by omega), hsub]
      exact ⟨_, _, rfl, by omega, by omega⟩

/-- Reading the bytes of a code point adds its character. -/
theorem Encodes.foldlM_step {n : Nat} {bytes : List UInt8} (h : Encodes n bytes)
    (hs : s.open? = none) : bytes.foldlM State.step s =
      .ok ⟨s.done.push (Char.ofNat n), s.position + bytes.length, none⟩ := by
  have hok : ∀ {t u : State} {b : UInt8} {rest : List UInt8}, t.step b = .ok u →
      (b :: rest).foldlM State.step t = rest.foldlM State.step u := by
    intro t u b rest ht
    rw [List.foldlM_cons, ht]
    rfl
  cases h with
  | one hn ha => rw [hok (State.step_whole hs (start_one hn ha))]; rfl
  | two low high ha hb =>
    have hvalue : 0x40 * (n / 0x40) + (0x80 + n % 0x40) % 0x40 = n := by omega
    rw [hok (State.step_first hs (start_two low high ha)),
      hok (State.step_last rfl (by simp only; omega) (by simp only; omega) rfl), hb, hvalue]
    rfl
  | three low high scalar ha hb hc =>
    obtain ⟨l, h, hstart, hl, hh⟩ := start_three low high scalar ha
    have hvalue : 0x40 * (0x40 * (n / 0x1000) + (0x80 + n / 0x40 % 0x40) % 0x40) +
        (0x80 + n % 0x40) % 0x40 = n := by omega
    rw [hok (State.step_first hs hstart),
      hok (State.step_more rfl (by simp only; omega) (by simp only; omega) (by simp)),
      hok (State.step_last rfl (by simp only; omega) (by simp only; omega) rfl), hb, hc, hvalue]
    rfl
  | four low high ha hb hc hd =>
    obtain ⟨l, h, hstart, hl, hh⟩ := start_four low high ha
    have hvalue : 0x40 * (0x40 * (0x40 * (n / 0x40000) + (0x80 + n / 0x1000 % 0x40) % 0x40) +
        (0x80 + n / 0x40 % 0x40) % 0x40) + (0x80 + n % 0x40) % 0x40 = n := by omega
    rw [hok (State.step_first hs hstart),
      hok (State.step_more rfl (by simp only; omega) (by simp only; omega) (by simp)),
      hok (State.step_more rfl (by simp only; omega) (by simp only; omega) (by simp)),
      hok (State.step_last rfl (by simp only; omega) (by simp only; omega) rfl), hb, hc, hd,
      hvalue]
    rfl

/-- The bytes that a text is encoded as are read as the text. -/
theorem foldlM_flatMap (cs : List Char) (hs : s.open? = none) :
    ∃ t, (cs.flatMap String.utf8EncodeChar).foldlM State.step s = .ok t ∧ t.open? = none ∧
      t.done.toList = s.done.toList ++ cs := by
  induction cs generalizing s with
  | nil => exact ⟨s, rfl, hs, (List.append_nil _).symm⟩
  | cons c cs ih =>
    rw [List.flatMap_cons, List.foldlM_append, (encodes_utf8EncodeChar c).foldlM_step hs,
      Char.ofNat_toNat]
    obtain ⟨t, ht, hopen, hdone⟩ := ih (s := ⟨s.done.push c, _, none⟩) rfl
    refine ⟨t, ht, hopen, ?_⟩
    rw [hdone, Array.toList_push, List.append_assoc, List.singleton_append]

/-- The encoding of a text, one character after the other. -/
theorem toUTF8_eq (text : String) :
    text.toUTF8.data.toList = text.toList.flatMap String.utf8EncodeChar := by
  rw [String.toUTF8_eq_toByteArray, ← String.utf8Encode_toList, List.utf8Encode,
    List.data_toByteArray]

/-- Decoding undoes encoding. -/
theorem decode_toUTF8 (text : String) : decode text.toUTF8.data.toList = .ok text.toList := by
  obtain ⟨t, ht, hopen, hdone⟩ := foldlM_flatMap (s := {}) text.toList rfl
  rw [decode, toUTF8_eq, ht]
  simp only [State.unfinished?, hopen]
  exact congrArg Except.ok hdone

/-- The character of a large byte is commentary. -/
theorem not_isInstruction_ofNat {b : UInt8} (hb : 0x80 ≤ b.toNat) :
    isInstruction (Char.ofNat b.toNat) = false := by
  have hnat := toNat_ofNat b
  refine Bool.eq_false_iff.2 fun h => ?_
  have := isInstruction_lt h
  omega

/-- Read as characters of their own, the bytes of a character hold an instruction only if the
character is one. -/
theorem filter_utf8EncodeChar (c : Char) :
    ((String.utf8EncodeChar c).map fun b => Char.ofNat b.toNat).filter isInstruction =
      [c].filter isInstruction := by
  have hcode := encodes_utf8EncodeChar c
  generalize String.utf8EncodeChar c = bytes at hcode
  by_cases hc : c.toNat < 0x80
  · cases hcode with
    | one _ ha => rw [List.map_singleton, ha, Char.ofNat_toNat]
    | two | three | four => omega
  · have hlarge : ∀ b ∈ bytes, isInstruction (Char.ofNat b.toNat) = false := fun b hb =>
      not_isInstruction_ofNat (hcode.le_of_mem (Nat.not_lt.1 hc) hb)
    have hc : isInstruction c = false := Bool.eq_false_iff.2 fun h => hc (isInstruction_lt h)
    rw [List.filter_map, List.filter_eq_nil_iff.2 (by simpa using hlarge)]
    simp [hc]

/-- Where every byte is read as a character of its own, the instruction characters are those of the
text that was encoded. -/
theorem filter_toUTF8 (text : String) :
    (text.toUTF8.data.toList.map fun b => Char.ofNat b.toNat).filter isInstruction =
      text.toList.filter isInstruction := by
  rw [toUTF8_eq]
  induction text.toList with
  | nil => rfl
  | cons c cs ih =>
    rw [List.flatMap_cons, List.map_append, List.filter_append, ih, filter_utf8EncodeChar,
      ← List.filter_append, List.singleton_append]

end Utf8

end TapeLang.Text

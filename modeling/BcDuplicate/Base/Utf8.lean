import Mathlib.Data.List.Basic

/-!
# UTF-8

Byte strings that are the UTF-8 encoding of characters (`WellFormed`).

An ASCII byte never stands inside the encoding of another character, so a
well-formed string can be cut at one: what is before it and what is behind it
are well-formed, and the other way around (`wellFormed_append_cons_iff`).
-/

namespace Utf8

/-- The bytes encode a list of characters. -/
def WellFormed (bytes : List UInt8) : Prop :=
  ∃ chars : List Char, bytes = chars.flatMap String.utf8EncodeChar

theorem wellFormed_iff_isValidUTF8 (bytes : List UInt8) :
    WellFormed bytes ↔ bytes.toByteArray.IsValidUTF8 := by
  constructor
  · rintro ⟨chars, rfl⟩
    exact ⟨chars, rfl⟩
  · rintro ⟨chars, hchars⟩
    have hdata := congrArg (fun array : ByteArray => array.data.toList) hchars
    exact ⟨chars, by simpa [List.utf8Encode] using hdata⟩

instance (bytes : List UInt8) : Decidable (WellFormed bytes) :=
  decidable_of_iff _ (wellFormed_iff_isValidUTF8 bytes).symm

theorem wellFormed_nil : WellFormed [] := ⟨[], rfl⟩

theorem wellFormed_utf8EncodeChar (c : Char) : WellFormed (String.utf8EncodeChar c) :=
  ⟨[c], (List.flatMap_singleton ..).symm⟩

theorem WellFormed.append {bytes bytes' : List UInt8} (h : WellFormed bytes)
    (h' : WellFormed bytes') : WellFormed (bytes ++ bytes') := by
  obtain ⟨chars, rfl⟩ := h
  obtain ⟨chars', rfl⟩ := h'
  exact ⟨chars ++ chars', List.flatMap_append.symm⟩

/-! ## ASCII bytes -/

/-- The encoding of the character an ASCII byte is. -/
theorem exists_utf8EncodeChar {b : UInt8} (hb : b < 0x80) :
    ∃ c : Char, String.utf8EncodeChar c = [b] ∧ c.toNat = b.toNat := by
  have hlt : b.toNat < 128 := hb
  have hvalid : b.toUInt32.isValidChar := Or.inl (by rw [UInt8.toNat_toUInt32]; omega)
  refine ⟨⟨b.toUInt32, hvalid⟩, ?_, UInt8.toNat_toUInt32 b⟩
  unfold String.utf8EncodeChar
  dsimp only
  rw [UInt8.toNat_toUInt32, if_pos (by omega), UInt8.ofNat_toNat]

/-- The bytes that continue or begin a longer encoding are not ASCII. -/
theorem high_of_add {v k : Nat} (hv : v + k < 256) (hk : 128 ≤ k) :
    ¬ UInt8.ofNat (v + k) < 0x80 := by
  intro hlt
  have hnat : (UInt8.ofNat (v + k)).toNat < 128 := hlt
  rw [UInt8.toNat_ofNat', Nat.mod_eq_of_lt hv] at hnat
  omega

/-- **An ASCII byte in the encoding of a character is all of it.** -/
theorem utf8EncodeChar_eq_singleton_of_mem {c : Char} {b : UInt8} (hb : b < 0x80)
    (hmem : b ∈ String.utf8EncodeChar c) : String.utf8EncodeChar c = [b] := by
  unfold String.utf8EncodeChar at hmem ⊢
  dsimp only at hmem ⊢
  generalize c.val.toNat = v at hmem ⊢
  split_ifs at hmem ⊢ with hone htwo hthree
  · rw [List.mem_singleton.mp hmem]
  · exfalso
    simp only [List.mem_cons, List.not_mem_nil, or_false] at hmem
    rcases hmem with rfl | rfl
    · exact high_of_add (by omega) (by omega) hb
    · exact high_of_add (by omega) (by omega) hb
  · exfalso
    simp only [List.mem_cons, List.not_mem_nil, or_false] at hmem
    rcases hmem with rfl | rfl | rfl
    · exact high_of_add (by omega) (by omega) hb
    · exact high_of_add (by omega) (by omega) hb
    · exact high_of_add (by omega) (by omega) hb
  · exfalso
    simp only [List.mem_cons, List.not_mem_nil, or_false] at hmem
    rcases hmem with rfl | rfl | rfl | rfl
    · exact high_of_add (by omega) (by omega) hb
    · exact high_of_add (by omega) (by omega) hb
    · exact high_of_add (by omega) (by omega) hb
    · exact high_of_add (by omega) (by omega) hb

theorem wellFormed_singleton {b : UInt8} (hb : b < 0x80) : WellFormed [b] := by
  obtain ⟨c, hc, _⟩ := exists_utf8EncodeChar hb
  exact hc ▸ wellFormed_utf8EncodeChar c

/-! ## cutting at an ASCII byte -/

/-- **A well-formed string can be cut at an ASCII byte.** -/
theorem wellFormed_append_cons_iff {before behind : List UInt8} {b : UInt8} (hb : b < 0x80) :
    WellFormed (before ++ b :: behind) ↔ WellFormed before ∧ WellFormed behind := by
  constructor
  · rintro ⟨chars, hchars⟩
    induction chars generalizing before with
    | nil => simp at hchars
    | cons c chars ih =>
      rw [List.flatMap_cons] at hchars
      obtain ⟨later, hbefore, hrest⟩ | ⟨later, hchar, hrest⟩ :=
        List.append_eq_append_iff.mp hchars.symm
      · -- the byte is behind the first character
        obtain ⟨hlater, hbehind⟩ := ih hrest.symm
        exact ⟨hbefore ▸ (wellFormed_utf8EncodeChar c).append hlater, hbehind⟩
      · cases later with
        | nil =>
          -- the first character is all there is before the byte
          rw [List.append_nil] at hchar
          rw [← List.nil_append (b :: behind)] at hrest
          obtain ⟨_, hbehind⟩ := ih hrest
          exact ⟨hchar ▸ wellFormed_utf8EncodeChar c, hbehind⟩
        | cons b' later =>
          -- the byte is in the encoding of the first character
          obtain ⟨rfl, hrest⟩ := List.cons.inj hrest
          have hmem : b ∈ String.utf8EncodeChar c := by
            rw [hchar]
            exact List.mem_append_right before List.mem_cons_self
          rw [utf8EncodeChar_eq_singleton_of_mem hb hmem] at hchar
          obtain ⟨rfl, hlater⟩ | ⟨_, hlater⟩ := List.append_eq_singleton_iff.mp hchar.symm
          · rw [hlater] at hrest
            exact ⟨wellFormed_nil, chars, (List.cons.inj hrest).2⟩
          · cases hlater
  · rintro ⟨hbefore, hbehind⟩
    exact hbefore.append ((wellFormed_singleton hb).append hbehind)

theorem wellFormed_cons_iff {b : UInt8} (hb : b < 0x80) {behind : List UInt8} :
    WellFormed (b :: behind) ↔ WellFormed behind := by
  rw [← List.nil_append (b :: behind), wellFormed_append_cons_iff hb,
    and_iff_right wellFormed_nil]

section Ascii

variable {ascii : List UInt8} (hascii : ∀ b ∈ ascii, b < 0x80)
include hascii

theorem wellFormed_ascii_append_iff {behind : List UInt8} :
    WellFormed (ascii ++ behind) ↔ WellFormed behind := by
  induction ascii with
  | nil => rfl
  | cons b ascii ih =>
    obtain ⟨hb, hascii⟩ := List.forall_mem_cons.mp hascii
    rw [List.cons_append, wellFormed_cons_iff hb, ih hascii]

theorem wellFormed_of_ascii : WellFormed ascii := by
  rw [← List.append_nil ascii, wellFormed_ascii_append_iff hascii]
  exact wellFormed_nil

theorem wellFormed_append_ascii_iff {before : List UInt8} :
    WellFormed (before ++ ascii) ↔ WellFormed before := by
  cases ascii with
  | nil => rw [List.append_nil]
  | cons b ascii =>
    obtain ⟨hb, hascii⟩ := List.forall_mem_cons.mp hascii
    rw [wellFormed_append_cons_iff hb, and_iff_left (wellFormed_of_ascii hascii)]

/-- A well-formed string can be cut around ASCII bytes. -/
theorem wellFormed_append_ascii_append_iff (hsome : ascii ≠ []) {before behind : List UInt8} :
    WellFormed (before ++ (ascii ++ behind)) ↔ WellFormed before ∧ WellFormed behind := by
  obtain ⟨b, rest, rfl⟩ := List.exists_cons_of_ne_nil hsome
  obtain ⟨hb, hrest⟩ := List.forall_mem_cons.mp hascii
  rw [List.cons_append, wellFormed_append_cons_iff hb, wellFormed_ascii_append_iff hrest]

end Ascii

theorem wellFormed_of_all {bytes : List UInt8} (hall : bytes.all (· < 0x80) = true) :
    WellFormed bytes :=
  wellFormed_of_ascii fun b hb => of_decide_eq_true (List.all_eq_true.mp hall b hb)

end Utf8

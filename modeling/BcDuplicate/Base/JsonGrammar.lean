import BcDuplicate.Base.Json
import BcDuplicate.Base.Utf8

/-!
# The grammar of JSON texts

What a JSON text is by RFC 8259, as a derivation over bytes: strings are made
of the UTF-8 encodings of characters and of escapes, numbers may have a sign,
a fraction and an exponent, and white space may stand around every token.

A text that can be derived is well-formed UTF-8 (`Derives.wellFormed`).  What
the printer of `Json` writes can be derived exactly when every string of the
value is well-formed UTF-8 (`text_render_iff`), provided it writes bytes from
`0x80` on as they are and every other byte in one of the forms the grammar
has for it (`Escapes`).
-/

namespace Json

open Utf8

/-! ## the grammar -/

/-- `ws` -/
def Whitespace (bytes : Bytes) : Prop := ∀ b ∈ bytes, isWhitespace b = true

/-- `*char`: what stands between the quotes of a string. -/
inductive Chars : Bytes → Prop
  | nil : Chars []
  | unescaped {c : Char} {rest : Bytes} : 0x20 ≤ c.toNat → c.toNat ≠ 0x22 → c.toNat ≠ 0x5C →
      Chars rest → Chars (String.utf8EncodeChar c ++ rest)
  | short {e : UInt8} {rest : Bytes} : (shortEscape e).isSome → Chars rest →
      Chars (backslash :: e :: rest)
  | unicode {digits rest : Bytes} : digits.length = 4 → (∀ d ∈ digits, (hexDigit d).isSome) →
      Chars rest → Chars (backslash :: 0x75 :: (digits ++ rest))

theorem whitespace_nil : Whitespace [] := nofun

def Digits (bytes : Bytes) : Prop := bytes ≠ [] ∧ ∀ b ∈ bytes, isDigit b = true

/-- `number = [ minus ] int [ frac ] [ exp ]` -/
inductive Number : Bytes → Prop
  | mk {minus int frac exp : Bytes} : minus = [] ∨ minus = ascii "-" →
      Digits int → (int.head? = some 0x30 → int = [0x30]) →
      frac = [] ∨ (∃ digits, Digits digits ∧ frac = ascii "." ++ digits) →
      exp = [] ∨ (∃ e sign digits, e ∈ [ascii "e", ascii "E"] ∧
        sign ∈ [[], ascii "+", ascii "-"] ∧ Digits digits ∧ exp = e ++ (sign ++ digits)) →
      Number (minus ++ (int ++ (frac ++ exp)))

/-- The nonterminals; an element is a value with white space around it. -/
inductive Symbol
  | value
  | element
  | elements
  | member
  | members

/-- The bytes a nonterminal derives. -/
inductive Derives : Symbol → Bytes → Prop
  | null : Derives .value (ascii "null")
  | true : Derives .value (ascii "true")
  | false : Derives .value (ascii "false")
  | number {bytes : Bytes} : Number bytes → Derives .value bytes
  | string {chars : Bytes} : Chars chars → Derives .value (quote :: (chars ++ [quote]))
  | emptyArray {ws : Bytes} : Whitespace ws →
      Derives .value (openBracket :: (ws ++ [closeBracket]))
  | array {bytes : Bytes} : Derives .elements bytes →
      Derives .value (openBracket :: (bytes ++ [closeBracket]))
  | emptyObject {ws : Bytes} : Whitespace ws → Derives .value (openBrace :: (ws ++ [closeBrace]))
  | object {bytes : Bytes} : Derives .members bytes →
      Derives .value (openBrace :: (bytes ++ [closeBrace]))
  | element {ws bytes ws' : Bytes} : Whitespace ws → Derives .value bytes → Whitespace ws' →
      Derives .element (ws ++ (bytes ++ ws'))
  | lastElement {bytes : Bytes} : Derives .element bytes → Derives .elements bytes
  | moreElements {bytes bytes' : Bytes} : Derives .element bytes → Derives .elements bytes' →
      Derives .elements (bytes ++ comma :: bytes')
  | member {ws key ws' bytes : Bytes} : Whitespace ws → Chars key → Whitespace ws' →
      Derives .element bytes →
      Derives .member (ws ++ quote :: (key ++ quote :: (ws' ++ colon :: bytes)))
  | lastMember {bytes : Bytes} : Derives .member bytes → Derives .members bytes
  | moreMembers {bytes bytes' : Bytes} : Derives .member bytes → Derives .members bytes' →
      Derives .members (bytes ++ comma :: bytes')

/-- `JSON-text = ws value ws` -/
def Text (bytes : Bytes) : Prop := Derives .element bytes

/-! ## a derived text is well-formed UTF-8 -/

theorem isWhitespace_ascii {b : UInt8} (h : isWhitespace b = true) : b < 0x80 := by
  unfold isWhitespace at h
  simp only [Bool.or_eq_true, decide_eq_true_eq] at h
  rcases h with ((rfl | rfl) | rfl) | rfl <;> decide

theorem isDigit_ascii {b : UInt8} (h : isDigit b = true) : b < 0x80 := by
  unfold isDigit at h
  have hle : b ≤ 57 := of_decide_eq_true (Bool.and_eq_true_iff.mp h).2
  exact UInt8.lt_of_le_of_lt hle (by decide)

theorem hexDigit_ascii {b : UInt8} (h : (hexDigit b).isSome) : b < 0x80 := by
  unfold hexDigit at h
  split_ifs at h with hdigit hupper hlower
  · exact UInt8.lt_of_le_of_lt hdigit.2 (by decide)
  · exact UInt8.lt_of_le_of_lt hupper.2 (by decide)
  · exact UInt8.lt_of_le_of_lt hlower.2 (by decide)
  · cases h

theorem shortEscape_ascii {e : UInt8} (h : (shortEscape e).isSome) : e < 0x80 := by
  unfold shortEscape at h
  split_ifs at h with hself hb hf hn hr ht
  · rcases hself with rfl | rfl | rfl <;> decide
  · subst hb; decide
  · subst hf; decide
  · subst hn; decide
  · subst hr; decide
  · subst ht; decide
  · cases h

theorem Whitespace.wellFormed {ws : Bytes} (h : Whitespace ws) : WellFormed ws :=
  wellFormed_of_ascii fun b hb => isWhitespace_ascii (h b hb)

theorem Digits.wellFormed {bytes : Bytes} (h : Digits bytes) : WellFormed bytes :=
  wellFormed_of_ascii fun b hb => isDigit_ascii (h.2 b hb)

theorem Chars.wellFormed {bytes : Bytes} (h : Chars bytes) : WellFormed bytes := by
  induction h with
  | nil => exact wellFormed_nil
  | @unescaped c rest _ _ _ _ ih => exact (wellFormed_utf8EncodeChar c).append ih
  | short he _ ih =>
    rw [wellFormed_cons_iff (by decide), wellFormed_cons_iff (shortEscape_ascii he)]
    exact ih
  | unicode _ hdigits _ ih =>
    rw [wellFormed_cons_iff (by decide), wellFormed_cons_iff (by decide),
      wellFormed_ascii_append_iff fun d hd => hexDigit_ascii (hdigits d hd)]
    exact ih

theorem Number.wellFormed {bytes : Bytes} (h : Number bytes) : WellFormed bytes := by
  obtain ⟨hminus, hint, _, hfrac, hexp⟩ := h
  refine WellFormed.append ?_ (hint.wellFormed.append (WellFormed.append ?_ ?_))
  · rcases hminus with rfl | rfl
    · exact wellFormed_nil
    · exact wellFormed_of_all (by decide +kernel)
  · rcases hfrac with rfl | ⟨digits, hdigits, rfl⟩
    · exact wellFormed_nil
    · exact (wellFormed_of_all (by decide +kernel)).append hdigits.wellFormed
  · rcases hexp with rfl | ⟨e, sign, digits, he, hsign, hdigits, rfl⟩
    · exact wellFormed_nil
    · have heAscii : ∀ e ∈ [ascii "e", ascii "E"], e.all (· < 0x80) = true := by decide +kernel
      have hsignAscii : ∀ sign ∈ [[], ascii "+", ascii "-"], sign.all (· < 0x80) = true := by
        decide +kernel
      exact (wellFormed_of_all (heAscii e he)).append
        ((wellFormed_of_all (hsignAscii sign hsign)).append hdigits.wellFormed)

/-- **Every text is well-formed UTF-8.** -/
theorem Derives.wellFormed {symbol : Symbol} {bytes : Bytes} (h : Derives symbol bytes) :
    WellFormed bytes := by
  have hbetween : ∀ (a b : UInt8) (bytes : Bytes), a < 0x80 → b < 0x80 → WellFormed bytes →
      WellFormed (a :: (bytes ++ [b])) := fun a b bytes ha hb hbytes =>
    (wellFormed_cons_iff ha).mpr (hbytes.append (wellFormed_singleton hb))
  induction h with
  | null => exact wellFormed_of_all (by decide +kernel)
  | true => exact wellFormed_of_all (by decide +kernel)
  | false => exact wellFormed_of_all (by decide +kernel)
  | number hnumber => exact hnumber.wellFormed
  | string hchars => exact hbetween _ _ _ (by decide) (by decide) hchars.wellFormed
  | emptyArray hws => exact hbetween _ _ _ (by decide) (by decide) hws.wellFormed
  | array _ ih => exact hbetween _ _ _ (by decide) (by decide) ih
  | emptyObject hws => exact hbetween _ _ _ (by decide) (by decide) hws.wellFormed
  | object _ ih => exact hbetween _ _ _ (by decide) (by decide) ih
  | element hws _ hws' ih => exact hws.wellFormed.append (ih.append hws'.wellFormed)
  | lastElement _ ih => exact ih
  | moreElements _ _ ih ih' => exact (wellFormed_append_cons_iff (by decide)).mpr ⟨ih, ih'⟩
  | member hws hkey hws' _ ih =>
    rw [wellFormed_append_cons_iff (by decide), wellFormed_append_cons_iff (by decide),
      wellFormed_append_cons_iff (by decide)]
    exact ⟨hws.wellFormed, hkey.wellFormed, hws'.wellFormed, ih⟩
  | lastMember _ ih => exact ih
  | moreMembers _ _ ih ih' => exact (wellFormed_append_cons_iff (by decide)).mpr ⟨ih, ih'⟩

/-! ## escapes -/

/-- The forms a string has for an ASCII byte. -/
inductive EscapedAs (b : UInt8) : Bytes → Prop
  | itself : 0x20 ≤ b.toNat → b.toNat ≠ 0x22 → b.toNat ≠ 0x5C → EscapedAs b [b]
  | short {e : UInt8} : (shortEscape e).isSome → EscapedAs b [backslash, e]
  | unicode {digits : Bytes} : digits.length = 4 → (∀ d ∈ digits, (hexDigit d).isSome) →
      EscapedAs b (backslash :: 0x75 :: digits)

/-- Bytes of longer encodings stay as they are, ASCII bytes take a form the
grammar has. -/
structure Escapes (escape : UInt8 → Bytes) : Prop where
  high : ∀ b, ¬ b < 0x80 → escape b = [b]
  low : ∀ b, b < 0x80 → EscapedAs b (escape b)

theorem EscapedAs.ne_nil {b : UInt8} {bytes : Bytes} (h : EscapedAs b bytes) : bytes ≠ [] := by
  cases h with
  | itself => exact List.cons_ne_nil _ _
  | short => exact List.cons_ne_nil _ _
  | unicode => exact List.cons_ne_nil _ _

theorem EscapedAs.ascii {b : UInt8} (hb : b < 0x80) {bytes : Bytes} (h : EscapedAs b bytes) :
    ∀ a ∈ bytes, a < 0x80 := by
  have hbackslash : backslash < 0x80 := by decide
  cases h with
  | itself => exact List.forall_mem_singleton.mpr hb
  | short he =>
    exact List.forall_mem_cons.mpr
      ⟨hbackslash, List.forall_mem_singleton.mpr (shortEscape_ascii he)⟩
  | unicode _ hdigits =>
    exact List.forall_mem_cons.mpr
      ⟨hbackslash, List.forall_mem_cons.mpr ⟨by decide, fun d hd => hexDigit_ascii (hdigits d hd)⟩⟩

theorem EscapedAs.chars {b : UInt8} (hb : b < 0x80) {bytes rest : Bytes} (h : EscapedAs b bytes)
    (hrest : Chars rest) : Chars (bytes ++ rest) := by
  cases h with
  | itself hcontrol hquote hbackslash =>
    obtain ⟨c, hencode, hnat⟩ := exists_utf8EncodeChar hb
    rw [← hnat] at hcontrol hquote hbackslash
    exact hencode ▸ Chars.unescaped hcontrol hquote hbackslash hrest
  | short he => exact Chars.short he hrest
  | unicode hlength hdigits => exact Chars.unicode hlength hdigits hrest

section Printed

variable {escape : UInt8 → Bytes} (hescape : Escapes escape)
include hescape

/-- Escaping changes nothing about what is well formed.  The part already
passed stays as it is: a longer encoding is looked at only once it is whole. -/
theorem wellFormed_append_flatMap_iff (before s : Bytes) :
    WellFormed (before ++ s.flatMap escape) ↔ WellFormed (before ++ s) := by
  induction s generalizing before with
  | nil => rfl
  | cons b s ih =>
    rw [List.flatMap_cons]
    by_cases hb : b < 0x80
    · have hform := hescape.low b hb
      rw [wellFormed_append_ascii_append_iff (hform.ascii hb) hform.ne_nil,
        wellFormed_append_cons_iff hb]
      exact and_congr_right fun _ => ih []
    · rw [hescape.high b hb, ← List.append_assoc, ih, List.append_assoc, List.singleton_append]

theorem wellFormed_renderString_iff (s : Bytes) :
    WellFormed (renderString escape s) ↔ WellFormed s := by
  have hs := wellFormed_append_flatMap_iff hescape [] s
  rw [List.nil_append, List.nil_append] at hs
  rw [renderString, wellFormed_cons_iff (by decide), wellFormed_append_cons_iff (by decide),
    and_iff_left wellFormed_nil, hs]

/-- The bytes of a well-formed string, escaped, are characters of a string. -/
theorem chars_flatMap {s : Bytes} (hs : WellFormed s) : Chars (s.flatMap escape) := by
  obtain ⟨chars, rfl⟩ := hs
  induction chars with
  | nil => exact Chars.nil
  | cons c chars ih =>
    rw [List.flatMap_cons, List.flatMap_append]
    by_cases hascii : ∃ b ∈ String.utf8EncodeChar c, b < 0x80
    · obtain ⟨b, hmem, hb⟩ := hascii
      rw [utf8EncodeChar_eq_singleton_of_mem hb hmem, List.flatMap_singleton]
      exact (hescape.low b hb).chars hb ih
    · have hhigh : (String.utf8EncodeChar c).flatMap escape = String.utf8EncodeChar c := by
        conv_rhs => rw [← List.flatMap_singleton' (String.utf8EncodeChar c)]
        exact List.flatMap_congr fun b hmem =>
          hescape.high b fun hb => hascii ⟨b, hmem, hb⟩
      have hlarge : 0x80 ≤ c.toNat := by
        by_contra hsmall
        have hsize : c.val.toNat ≤ 0x7f := Nat.le_of_lt_succ (Nat.lt_of_not_le hsmall)
        have hencode : String.utf8EncodeChar c = [UInt8.ofNat c.val.toNat] := by
          unfold String.utf8EncodeChar
          rw [if_pos hsize]
        refine hascii ⟨_, hencode ▸ List.mem_singleton_self _, ?_⟩
        change (UInt8.ofNat c.val.toNat).toNat < 128
        rw [UInt8.toNat_ofNat']
        omega
      rw [hhigh]
      exact Chars.unescaped (by omega) (by omega) (by omega) ih

end Printed

/-! ## printed values -/

mutual

/-- The strings of a value, keys included. -/
def strings : Value → List Bytes
  | .null => []
  | .bool _ => []
  | .number _ => []
  | .string s => [s]
  | .array vs => elementStrings vs
  | .object ms => memberStrings ms

def elementStrings : List Value → List Bytes
  | [] => []
  | v :: vs => strings v ++ elementStrings vs

def memberStrings : List (Bytes × Value) → List Bytes
  | [] => []
  | (key, v) :: ms => key :: (strings v ++ memberStrings ms)

end

theorem decimal_ne_nil (n : Nat) : decimal n ≠ [] := by
  obtain ⟨d, digits, hdecimal, _⟩ := decimal_eq_cons n
  rw [hdecimal]
  exact List.cons_ne_nil _ _

theorem number_decimal (n : Nat) : Number (decimal n) := by
  have hdigits : Digits (decimal n) := ⟨decimal_ne_nil n, fun b hb => isDigit_of_mem_decimal hb⟩
  have hzero : (decimal n).head? = some 0x30 → decimal n = [0x30] := by
    obtain ⟨d, digits, hdecimal, hleading⟩ := decimal_eq_cons n
    intro hhead
    rw [hdecimal, List.head?_cons] at hhead
    rw [hdecimal, Option.some.inj hhead,
      not_not.mp fun hsome => hleading ⟨Option.some.inj hhead, hsome⟩]
  have hnumber := Number.mk (Or.inl rfl) hdigits hzero (Or.inl rfl) (Or.inl rfl)
  rw [List.nil_append, List.append_nil, List.append_nil] at hnumber
  exact hnumber

section Text

variable {escape : UInt8 → Bytes}

mutual

/-- **A printed value is well-formed UTF-8 exactly when its strings are.** -/
theorem wellFormed_render_iff (hescape : Escapes escape) : (v : Value) →
    (WellFormed (render escape v) ↔ ∀ s ∈ strings v, WellFormed s)
  | .null => iff_of_true (by rw [render]; exact wellFormed_of_all (by decide +kernel)) nofun
  | .bool true => iff_of_true (by rw [render]; exact wellFormed_of_all (by decide +kernel)) nofun
  | .bool false => iff_of_true (by rw [render]; exact wellFormed_of_all (by decide +kernel)) nofun
  | .number n => iff_of_true (number_decimal n).wellFormed nofun
  | .string s => by
    rw [render, wellFormed_renderString_iff hescape, strings, List.forall_mem_singleton]
  | .array [] => iff_of_true (by rw [render]; exact wellFormed_of_all (by decide +kernel)) nofun
  | .array (v :: vs) => by
    rw [render, wellFormed_cons_iff (by decide), wellFormed_renderElements_iff hescape,
      wellFormed_render_iff hescape v, strings, elementStrings, List.forall_mem_append]
  | .object [] => iff_of_true (by rw [render]; exact wellFormed_of_all (by decide +kernel)) nofun
  | .object ((key, v) :: ms) => by
    rw [render, wellFormed_cons_iff (by decide), wellFormed_append_cons_iff (by decide),
      wellFormed_renderString_iff hescape, wellFormed_renderMembers_iff hescape,
      wellFormed_render_iff hescape v, strings, memberStrings, List.forall_mem_cons,
      List.forall_mem_append]

theorem wellFormed_renderElements_iff (hescape : Escapes escape) (before : Bytes) :
    (vs : List Value) →
    (WellFormed (before ++ renderElements escape vs) ↔
      WellFormed before ∧ ∀ s ∈ elementStrings vs, WellFormed s)
  | [] => by
    rw [renderElements, wellFormed_append_cons_iff (by decide)]
    exact and_congr_right fun _ => iff_of_true wellFormed_nil nofun
  | v :: vs => by
    rw [renderElements, wellFormed_append_cons_iff (by decide),
      wellFormed_renderElements_iff hescape, wellFormed_render_iff hescape v, elementStrings,
      List.forall_mem_append]

theorem wellFormed_renderMembers_iff (hescape : Escapes escape) (before : Bytes) :
    (ms : List (Bytes × Value)) →
    (WellFormed (before ++ renderMembers escape ms) ↔
      WellFormed before ∧ ∀ s ∈ memberStrings ms, WellFormed s)
  | [] => by
    rw [renderMembers, wellFormed_append_cons_iff (by decide)]
    exact and_congr_right fun _ => iff_of_true wellFormed_nil nofun
  | (key, v) :: ms => by
    rw [renderMembers, wellFormed_append_cons_iff (by decide),
      wellFormed_append_cons_iff (by decide), wellFormed_renderString_iff hescape,
      wellFormed_renderMembers_iff hescape, wellFormed_render_iff hescape v, memberStrings,
      List.forall_mem_cons, List.forall_mem_append]

end

theorem Derives.unpadded {bytes : Bytes} (h : Derives .value bytes) : Derives .element bytes := by
  have hpadded := Derives.element whitespace_nil h whitespace_nil
  rw [List.nil_append, List.append_nil] at hpadded
  exact hpadded

/-- A printed member. -/
theorem derives_member (hescape : Escapes escape) {key bytes : Bytes} (hkey : WellFormed key)
    (h : Derives .value bytes) :
    Derives .member (renderString escape key ++ colon :: bytes) := by
  have hmember := Derives.member whitespace_nil (chars_flatMap hescape hkey) whitespace_nil
    h.unpadded
  rw [List.nil_append, List.nil_append] at hmember
  rw [renderString, List.cons_append, List.append_assoc, List.singleton_append]
  exact hmember

mutual

/-- **A value whose strings are well-formed is printed as a JSON value.** -/
theorem derives_render (hescape : Escapes escape) : (v : Value) → (∀ s ∈ strings v, WellFormed s) →
    Derives .value (render escape v)
  | .null, _ => by rw [render]; exact .null
  | .bool true, _ => by rw [render]; exact .true
  | .bool false, _ => by rw [render]; exact .false
  | .number n, _ => by rw [render]; exact .number (number_decimal n)
  | .string s, hs => by
    rw [render]
    exact .string (chars_flatMap hescape (hs s (by rw [strings]; exact List.mem_singleton_self s)))
  | .array [], _ => by rw [render]; exact .emptyArray whitespace_nil
  | .array (v :: vs), hs => by
    rw [strings, elementStrings, List.forall_mem_append] at hs
    obtain ⟨elements, helements, heq⟩ :=
      derives_renderElements hescape (derives_render hescape v hs.1) vs hs.2
    rw [render, heq]
    exact .array helements
  | .object [], _ => by rw [render]; exact .emptyObject whitespace_nil
  | .object ((key, v) :: ms), hs => by
    rw [strings, memberStrings, List.forall_mem_cons, List.forall_mem_append] at hs
    obtain ⟨members, hmembers, heq⟩ :=
      derives_renderMembers hescape
        (derives_member hescape hs.1 (derives_render hescape v hs.2.1)) ms hs.2.2
    rw [List.append_assoc, List.cons_append] at heq
    rw [render, heq]
    exact .object hmembers

theorem derives_renderElements (hescape : Escapes escape) {bytes : Bytes}
    (h : Derives .value bytes) :
    (vs : List Value) → (∀ s ∈ elementStrings vs, WellFormed s) →
    ∃ elements, Derives .elements elements ∧
      bytes ++ renderElements escape vs = elements ++ [closeBracket]
  | [], _ => ⟨bytes, .lastElement h.unpadded, by rw [renderElements]⟩
  | v :: vs, hs => by
    rw [elementStrings, List.forall_mem_append] at hs
    obtain ⟨elements, helements, heq⟩ :=
      derives_renderElements hescape (derives_render hescape v hs.1) vs hs.2
    refine ⟨bytes ++ comma :: elements, .moreElements h.unpadded helements, ?_⟩
    rw [renderElements, heq, List.append_assoc, List.cons_append]

theorem derives_renderMembers (hescape : Escapes escape) {bytes : Bytes}
    (h : Derives .member bytes) :
    (ms : List (Bytes × Value)) → (∀ s ∈ memberStrings ms, WellFormed s) →
    ∃ members, Derives .members members ∧
      bytes ++ renderMembers escape ms = members ++ [closeBrace]
  | [], _ => ⟨bytes, .lastMember h, by rw [renderMembers]⟩
  | (key, v) :: ms, hs => by
    rw [memberStrings, List.forall_mem_cons, List.forall_mem_append] at hs
    obtain ⟨members, hmembers, heq⟩ :=
      derives_renderMembers hescape
        (derives_member hescape hs.1 (derives_render hescape v hs.2.1)) ms hs.2.2
    rw [List.append_assoc, List.cons_append] at heq
    refine ⟨bytes ++ comma :: members, .moreMembers h hmembers, ?_⟩
    rw [renderMembers, heq, List.append_assoc, List.cons_append]

end

/-- **When what is printed is a JSON text.** -/
theorem text_render_iff (hescape : Escapes escape) (v : Value) {ws : Bytes}
    (hws : Whitespace ws) :
    Text (render escape v ++ ws) ↔ ∀ s ∈ strings v, WellFormed s := by
  constructor
  · intro htext
    rw [← wellFormed_render_iff hescape v,
      ← wellFormed_append_ascii_iff fun b hb => isWhitespace_ascii (hws b hb)]
    exact Derives.wellFormed htext
  · intro hs
    exact .element whitespace_nil (derives_render hescape v hs) hws

end Text

end Json

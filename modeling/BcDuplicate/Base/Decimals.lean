import BcDuplicate.Base.Json
import Mathlib.Algebra.GroupWithZero.Nat
import Mathlib.Algebra.Order.Field.Rat
import Mathlib.Data.List.Induction
import Mathlib.Data.List.TakeWhile

/-!
# Decimals with a fixed number of fractional digits

The text of the number `scaled / 10 ^ places`: a sign when it is negative, the
digits before the point, the point, and exactly `places` digits behind it.
`read` takes a sign, digits, and a point with digits, and stops there.

`read_text` says that reading the text gives the number back, whatever follows
digits that end; `length_text_le` bounds the text by the size of the number.
-/

namespace Decimals

open Json (Bytes decimal digitsValue isDigit)

def minus : UInt8 := 0x2D
def point : UInt8 := 0x2E

/-- The digits of a number, with zeros in front up to a width. -/
def padded (places n : Nat) : Bytes := List.replicate (places - (decimal n).length) 48 ++ decimal n

/-- The text of `scaled / 10 ^ places`. -/
def text (places : Nat) (scaled : Int) : Bytes :=
  (if scaled < 0 then [minus] else []) ++
    decimal (scaled.natAbs / 10 ^ places) ++
      point :: padded places (scaled.natAbs % 10 ^ places)

/-- The text of a number, rounded down to `places` digits. -/
def print (places : Nat) (x : ℚ) : Bytes := text places (x.num * 10 ^ places / x.den)

/-- Read digits, and a point with the digits behind it.  Without a digit there
is no number. -/
def readMagnitude (bytes : Bytes) : Option (Nat × Nat) :=
  let whole := bytes.takeWhile isDigit
  let fraction :=
    match bytes.dropWhile isDigit with
    | b :: rest => if b = point then rest.takeWhile isDigit else []
    | [] => []
  if whole = [] ∧ fraction = [] then none
  else some (digitsValue (whole ++ fraction), fraction.length)

/-- Read a decimal with an optional sign. -/
def read (bytes : Bytes) : Option ℚ :=
  match bytes with
  | [] => none
  | b :: rest =>
      if b = minus then
        (readMagnitude rest).map fun (value, places) => mkRat (-value) (10 ^ places)
      else (readMagnitude bytes).map fun (value, places) => mkRat value (10 ^ places)

/-! ## digits -/

theorem digitsValue_append (l r : Bytes) :
    digitsValue (l ++ r) = digitsValue l * 10 ^ r.length + digitsValue r := by
  induction r using List.reverseRecOn with
  | nil => rw [List.append_nil]; exact (Nat.mul_one _).symm
  | append_singleton r b ih =>
      rw [← List.append_assoc, digitsValue, List.foldl_append, List.foldl_cons, List.foldl_nil,
        ← digitsValue, ih, digitsValue, digitsValue, digitsValue, List.foldl_append,
        List.foldl_cons, List.foldl_nil, List.length_append, List.length_singleton, Nat.pow_succ,
        Nat.add_mul, Nat.mul_assoc, Nat.add_assoc]

theorem digitsValue_replicate_zero (k : Nat) : digitsValue (List.replicate k 48) = 0 := by
  induction k with
  | zero => rfl
  | succ k ih => exact ih

theorem decimal_ne_nil (n : Nat) : decimal n ≠ [] := by
  obtain ⟨b, digits, hn, _⟩ := Json.decimal_eq_cons n
  rw [hn]
  exact List.cons_ne_nil b digits

/-- A number below `10 ^ k` has at most `k` digits. -/
theorem length_decimal_le {k n : Nat} (hk : 0 < k) (hn : n < 10 ^ k) : (decimal n).length ≤ k := by
  induction k generalizing n with
  | zero => exact absurd hk (Nat.lt_irrefl 0)
  | succ k ih =>
      rw [decimal]
      split
      · exact hk
      · rename_i hten
        have hfewer : n / 10 < 10 ^ k := Nat.div_lt_of_lt_mul (by rwa [← Nat.pow_succ'])
        have hpos : 0 < k := by
          rcases Nat.eq_zero_or_pos k with rfl | hpos
          · omega
          · exact hpos
        rw [List.length_append, List.length_singleton]
        exact Nat.succ_le_succ (ih hpos hfewer)

theorem length_padded {places n : Nat} (hplaces : 0 < places) (hn : n < 10 ^ places) :
    (padded places n).length = places := by
  have hle := length_decimal_le hplaces hn
  rw [padded, List.length_append, List.length_replicate]
  omega

theorem digitsValue_padded (places n : Nat) : digitsValue (padded places n) = n := by
  rw [padded, digitsValue_append, digitsValue_replicate_zero, Json.digitsValue_decimal,
    Nat.zero_mul, Nat.zero_add]

theorem isDigit_of_mem_padded {places n : Nat} {b : UInt8} (hb : b ∈ padded places n) :
    isDigit b = true := by
  obtain hzero | hdecimal := List.mem_append.mp hb
  · rw [List.eq_of_mem_replicate hzero]
    rfl
  · exact Json.isDigit_of_mem_decimal hdecimal

/-! ## reading what was printed -/

theorem readMagnitude_text {places n m : Nat} (hplaces : 0 < places) (hm : m < 10 ^ places) :
    readMagnitude (decimal n ++ point :: padded places m) = some (n * 10 ^ places + m, places) := by
  have hdigits : ∀ b ∈ decimal n, isDigit b = true := fun b => Json.isDigit_of_mem_decimal
  have hwhole : (decimal n ++ point :: padded places m).takeWhile isDigit = decimal n := by
    rw [List.takeWhile_append_of_pos hdigits, List.takeWhile_cons_of_neg (by decide),
      List.append_nil]
  have hrest : (decimal n ++ point :: padded places m).dropWhile isDigit =
      point :: padded places m := by
    rw [List.dropWhile_append_of_pos hdigits, List.dropWhile_cons_of_neg (by decide)]
  have hfraction : (padded places m).takeWhile isDigit = padded places m :=
    List.takeWhile_eq_self_iff.mpr fun b => isDigit_of_mem_padded
  simp only [readMagnitude, hwhole, hrest, hfraction, if_pos]
  rw [if_neg (fun h => decimal_ne_nil n h.1), digitsValue_append, Json.digitsValue_decimal,
    digitsValue_padded, length_padded hplaces hm]

/-- **The text of a decimal is read as that decimal.** -/
theorem read_text {places : Nat} (hplaces : 0 < places) (scaled : Int) :
    read (text places scaled) = some (mkRat scaled (10 ^ places)) := by
  have hpow : 0 < 10 ^ places := Nat.pow_pos (by decide)
  have hmod : scaled.natAbs % 10 ^ places < 10 ^ places := Nat.mod_lt _ hpow
  have hmagnitude := readMagnitude_text (n := scaled.natAbs / 10 ^ places) hplaces hmod
  rw [Nat.div_add_mod'] at hmagnitude
  by_cases hneg : scaled < 0
  · have hvalue : -(scaled.natAbs : Int) = scaled := by omega
    rw [text, if_pos hneg, List.append_assoc, List.singleton_append, read, if_pos rfl, hmagnitude,
      Option.map_some]
    dsimp only
    rw [hvalue]
  · have hvalue : (scaled.natAbs : Int) = scaled := by omega
    obtain ⟨b, digits, hcons, _⟩ := Json.decimal_eq_cons (scaled.natAbs / 10 ^ places)
    have hdigit : isDigit b = true :=
      Json.isDigit_of_mem_decimal (hcons ▸ List.mem_cons_self)
    have hminus : b ≠ minus := Json.ne_of_isDigit hdigit (by decide)
    rw [text, if_neg hneg, List.nil_append]
    rw [hcons, List.cons_append] at hmagnitude ⊢
    rw [read, if_neg hminus, hmagnitude, Option.map_some]
    dsimp only
    rw [hvalue]

theorem print_mkRat (places : Nat) (scaled : Int) :
    print places (mkRat scaled (10 ^ places)) = text places scaled := by
  have hpow : 10 ^ places ≠ 0 := Nat.pos_iff_ne_zero.mp (Nat.pow_pos (by decide))
  have hden : ((mkRat scaled (10 ^ places)).den : Int) ≠ 0 :=
    Int.natCast_ne_zero.mpr (Rat.den_nz _)
  have hcross : (mkRat scaled (10 ^ places)).num * (10 ^ places : Nat) =
      scaled * (mkRat scaled (10 ^ places)).den := by
    rw [← Rat.mkRat_eq_iff (Rat.den_nz _) hpow, Rat.mkRat_self]
  rw [Int.natCast_pow] at hcross
  rw [print]
  exact congrArg (text places) ((congrArg (· / _) hcross).trans (Int.mul_ediv_cancel _ hden))

/-! ## the bytes of a text -/

theorem mem_text {places : Nat} {scaled : Int} {b : UInt8} (hb : b ∈ text places scaled) :
    isDigit b = true ∨ b = minus ∨ b = point := by
  rw [text, List.append_assoc, List.mem_append, List.mem_append, List.mem_cons] at hb
  rcases hb with hsign | hwhole | hpoint | hfraction
  · split at hsign
    · exact Or.inr (Or.inl (List.mem_singleton.mp hsign))
    · cases hsign
  · exact Or.inl (Json.isDigit_of_mem_decimal hwhole)
  · exact Or.inr (Or.inr hpoint)
  · exact Or.inl (isDigit_of_mem_padded hfraction)

theorem length_text_le {places k : Nat} {scaled : Int} (hplaces : 0 < places) (hk : 0 < k)
    (hscaled : scaled.natAbs < 10 ^ places * 10 ^ k) :
    (text places scaled).length ≤ 2 + k + places := by
  have hmod : scaled.natAbs % 10 ^ places < 10 ^ places :=
    Nat.mod_lt _ (Nat.pow_pos (by decide))
  have hsign : (if scaled < 0 then [minus] else []).length ≤ 1 := by
    split <;> decide
  have hwhole := length_decimal_le hk (Nat.div_lt_of_lt_mul hscaled)
  rw [text, List.append_assoc, List.length_append, List.length_append, List.length_cons,
    length_padded hplaces hmod]
  omega

end Decimals

import Mathlib.Data.List.Basic

/-!
# JSON over bytes

A strict JSON reader on byte strings, and a compact printer it undoes.

The reader accepts insignificant white space, the eight short escapes, and
`\\u` escapes of code points outside the surrogates; inside a string every
byte from `0x20` on other than the quote and the backslash stands for itself.
Numbers are natural numbers in canonical decimal, which is the part of JSON a
program without fractions and signs needs.

The printer leaves open how a byte is written inside a string: any `escape`
that the reader undoes will do (`Undoes`).  Then `parseValue_render` says that
reading a printed value gives the value back, and stops right behind it.
-/

namespace Json

abbrev Bytes := List UInt8

/-- The bytes of an ASCII string. -/
def ascii (s : String) : Bytes := s.toList.map fun c => c.toNat.toUInt8

def quote : UInt8 := 0x22
def comma : UInt8 := 0x2C
def colon : UInt8 := 0x3A
def openBracket : UInt8 := 0x5B
def backslash : UInt8 := 0x5C
def closeBracket : UInt8 := 0x5D
def openBrace : UInt8 := 0x7B
def closeBrace : UInt8 := 0x7D

/-- A JSON value.  The members of an object keep their order. -/
inductive Value
  | null
  | bool (value : Bool)
  | number (value : Nat)
  | string (bytes : Bytes)
  | array (elements : List Value)
  | object (members : List (Bytes × Value))

/-! ## numbers -/

def isDigit (b : UInt8) : Bool := decide (48 ≤ b) && decide (b ≤ 57)

/-- The canonical decimal of a number: no leading zeros. -/
def decimal (n : Nat) : Bytes :=
  if n < 10 then [(48 + n).toUInt8] else decimal (n / 10) ++ [(48 + n % 10).toUInt8]

/-- The value of a string of decimal digits. -/
def digitsValue (digits : Bytes) : Nat :=
  digits.foldl (fun value b => value * 10 + (b.toNat - 48)) 0

/-- Read a number: digits without a leading zero, unless zero is all. -/
def parseNumber (input : Bytes) : Option (Nat × Bytes) :=
  match input.takeWhile isDigit with
  | [] => none
  | b :: digits =>
      if b = 48 ∧ digits ≠ [] then none
      else some (digitsValue (b :: digits), input.dropWhile isDigit)

/-! ## strings -/

/-- The value of a hexadecimal digit. -/
def hexDigit (b : UInt8) : Option Nat :=
  if 48 ≤ b ∧ b ≤ 57 then some (b.toNat - 48)
  else if 65 ≤ b ∧ b ≤ 70 then some (b.toNat - 55)
  else if 97 ≤ b ∧ b ≤ 102 then some (b.toNat - 87)
  else none

/-- The value of a string of hexadecimal digits. -/
def hexValue (digits : Bytes) : Option Nat :=
  digits.foldl (fun value b => value.bind fun v => (hexDigit b).map fun d => v * 16 + d) (some 0)

/-- The UTF-8 encoding of a code point below `0x10000` that is no surrogate. -/
def utf8 (code : Nat) : Option Bytes :=
  if code < 0x80 then some [code.toUInt8]
  else if code < 0x800 then some [(0xC0 + code / 64).toUInt8, (0x80 + code % 64).toUInt8]
  else if 0xD800 ≤ code ∧ code < 0xE000 then none
  else some [(0xE0 + code / 4096).toUInt8, (0x80 + code / 64 % 64).toUInt8,
    (0x80 + code % 64).toUInt8]

/-- What the character behind a backslash stands for. -/
def shortEscape (b : UInt8) : Option UInt8 :=
  if b = quote ∨ b = backslash ∨ b = 0x2F then some b
  else if b = 0x62 then some 0x08
  else if b = 0x66 then some 0x0C
  else if b = 0x6E then some 0x0A
  else if b = 0x72 then some 0x0D
  else if b = 0x74 then some 0x09
  else none

/-- Read a string from behind its opening quote: its bytes, and what follows
the closing quote. -/
def parseString (input : Bytes) : Option (Bytes × Bytes) :=
  match input with
  | [] => none
  | b :: rest =>
      if b = quote then some ([], rest)
      else if b < 0x20 then none
      else if b = backslash then
        match rest with
        | [] => none
        | e :: rest =>
            if e = 0x75 then
              if rest.length < 4 then none
              else
                match (hexValue (rest.take 4)).bind utf8, parseString (rest.drop 4) with
                | some bytes, some (s, rest) => some (bytes ++ s, rest)
                | _, _ => none
            else
              match shortEscape e, parseString rest with
              | some b, some (s, rest) => some (b :: s, rest)
              | _, _ => none
      else (parseString rest).map fun (s, rest) => (b :: s, rest)
termination_by input.length
decreasing_by
  · simp only [List.length_drop, List.length_cons]; omega
  · simp only [List.length_cons]; omega
  · simp only [List.length_cons]; omega

/-! ## values -/

def isWhitespace (b : UInt8) : Bool := b = 0x20 || b = 0x09 || b = 0x0A || b = 0x0D

def skipWhitespace (input : Bytes) : Bytes := input.dropWhile isWhitespace

/-- Read the rest of a keyword. -/
def parseKeyword (keyword : Bytes) (value : Value) (input : Bytes) : Option (Value × Bytes) :=
  if keyword.isPrefixOf input then some (value, input.drop keyword.length) else none

mutual

/-- Read a value.  The fuel bounds the number of nested readers, and the
length of the input is always enough. -/
def parseValue : Nat → Bytes → Option (Value × Bytes)
  | 0, _ => none
  | fuel + 1, input =>
      match skipWhitespace input with
      | [] => none
      | b :: rest =>
          if b = quote then (parseString rest).map fun (s, rest) => (.string s, rest)
          else if b = openBracket then
            match skipWhitespace rest with
            | [] => none
            | c :: after =>
                if c = closeBracket then some (.array [], after)
                else (parseElements fuel rest).map fun (vs, rest) => (.array vs, rest)
          else if b = openBrace then
            match skipWhitespace rest with
            | [] => none
            | c :: after =>
                if c = closeBrace then some (.object [], after)
                else (parseMembers fuel rest).map fun (ms, rest) => (.object ms, rest)
          else if b = 0x6E then parseKeyword (ascii "null") .null (b :: rest)
          else if b = 0x74 then parseKeyword (ascii "true") (.bool true) (b :: rest)
          else if b = 0x66 then parseKeyword (ascii "false") (.bool false) (b :: rest)
          else (parseNumber (b :: rest)).map fun (n, rest) => (.number n, rest)

/-- Read one or more elements and the closing bracket. -/
def parseElements : Nat → Bytes → Option (List Value × Bytes)
  | 0, _ => none
  | fuel + 1, input =>
      match parseValue fuel input with
      | none => none
      | some (v, rest) =>
          match skipWhitespace rest with
          | [] => none
          | b :: rest =>
              if b = comma then (parseElements fuel rest).map fun (vs, rest) => (v :: vs, rest)
              else if b = closeBracket then some ([v], rest)
              else none

/-- Read one or more members and the closing brace. -/
def parseMembers : Nat → Bytes → Option (List (Bytes × Value) × Bytes)
  | 0, _ => none
  | fuel + 1, input =>
      match skipWhitespace input with
      | [] => none
      | b :: rest =>
          if b ≠ quote then none
          else
            match parseString rest with
            | none => none
            | some (key, rest) =>
                match skipWhitespace rest with
                | [] => none
                | c :: rest =>
                    if c ≠ colon then none
                    else
                      match parseValue fuel rest with
                      | none => none
                      | some (v, rest) =>
                          match skipWhitespace rest with
                          | [] => none
                          | b :: rest =>
                              if b = comma then
                                (parseMembers fuel rest).map fun (ms, rest) =>
                                  ((key, v) :: ms, rest)
                              else if b = closeBrace then some ([(key, v)], rest)
                              else none

end

/-- Read one value: the value, and what follows it. -/
def parse (input : Bytes) : Option (Value × Bytes) := parseValue input.length input

/-! ## printing -/

section Render

variable (escape : UInt8 → Bytes)

def renderString (s : Bytes) : Bytes := quote :: (s.flatMap escape ++ [quote])

mutual

/-- A value without white space. -/
def render : Value → Bytes
  | .null => ascii "null"
  | .bool true => ascii "true"
  | .bool false => ascii "false"
  | .number n => decimal n
  | .string s => renderString escape s
  | .array [] => [openBracket, closeBracket]
  | .array (v :: vs) => openBracket :: (render v ++ renderElements vs)
  | .object [] => [openBrace, closeBrace]
  | .object ((key, v) :: ms) =>
      openBrace :: (renderString escape key ++ colon :: (render v ++ renderMembers ms))

/-- The elements behind the first, and the closing bracket. -/
def renderElements : List Value → Bytes
  | [] => [closeBracket]
  | v :: vs => comma :: (render v ++ renderElements vs)

/-- The members behind the first, and the closing brace. -/
def renderMembers : List (Bytes × Value) → Bytes
  | [] => [closeBrace]
  | (key, v) :: ms => comma :: (renderString escape key ++ colon :: (render v ++ renderMembers ms))

end

/-- Items with commas between them, as a loop writes them that puts a comma
before every item but the first. -/
def commaSeparated (items : List Bytes) : Bytes :=
  items.zipIdx.flatMap fun (item, index) => (if index > 0 then [comma] else []) ++ item

/-- The reader takes what is written for a byte as that byte. -/
def Undoes : Prop := ∀ (b : UInt8) (rest : Bytes),
  parseString (escape b ++ rest) = (parseString rest).map fun (s, rest) => (b :: s, rest)

end Render

/-! ### separated items -/

theorem commaSeparated_cons (item : Bytes) (items : List Bytes) :
    commaSeparated (item :: items) = item ++ items.flatMap (comma :: ·) := by
  have htail : ∀ (items : List Bytes) (start : Nat), 0 < start →
      ((items.zipIdx start).flatMap fun (item, index) =>
        (if index > 0 then [comma] else []) ++ item) = items.flatMap (comma :: ·) := by
    intro items
    induction items with
    | nil => exact fun _ _ => rfl
    | cons item items ih =>
        intro start hstart
        rw [List.zipIdx_cons, List.flatMap_cons, List.flatMap_cons, ih (start + 1) (by omega)]
        dsimp only
        rw [if_pos hstart]
        rfl
  rw [commaSeparated, List.zipIdx_cons, List.flatMap_cons, htail items _ (by decide)]
  rfl

theorem renderElements_eq (escape : UInt8 → Bytes) (vs : List Value) :
    renderElements escape vs = (vs.map (render escape)).flatMap (comma :: ·) ++ [closeBracket] := by
  induction vs with
  | nil => rfl
  | cons v vs ih =>
      rw [renderElements, ih, List.map_cons, List.flatMap_cons, List.cons_append, List.cons_append,
        List.append_assoc]

theorem render_array (escape : UInt8 → Bytes) (vs : List Value) : render escape (.array vs) =
    openBracket :: (commaSeparated (vs.map (render escape)) ++ [closeBracket]) := by
  cases vs with
  | nil => rfl
  | cons v vs =>
      rw [render, renderElements_eq, List.map_cons, commaSeparated_cons, List.append_assoc]

/-- One member of an object. -/
def renderMember (escape : UInt8 → Bytes) (member : Bytes × Value) : Bytes :=
  renderString escape member.1 ++ colon :: render escape member.2

theorem renderMembers_eq (escape : UInt8 → Bytes) (ms : List (Bytes × Value)) :
    renderMembers escape ms = (ms.map (renderMember escape)).flatMap (comma :: ·) ++
      [closeBrace] := by
  induction ms with
  | nil => rfl
  | cons m ms ih =>
      obtain ⟨key, v⟩ := m
      rw [renderMembers, ih, List.map_cons, List.flatMap_cons, renderMember, List.cons_append,
        List.cons_append, List.append_assoc, List.append_assoc, List.cons_append]

theorem render_object (escape : UInt8 → Bytes) (ms : List (Bytes × Value)) :
    render escape (.object ms) =
      openBrace :: (commaSeparated (ms.map (renderMember escape)) ++ [closeBrace]) := by
  cases ms with
  | nil => rfl
  | cons m ms =>
      obtain ⟨key, v⟩ := m
      rw [render, renderMembers_eq, List.map_cons, commaSeparated_cons, renderMember,
        List.append_assoc, List.append_assoc, List.cons_append]

/-! ### decimals -/

theorem isDigit_of_lt : ∀ n < 10, isDigit (48 + n).toUInt8 = true := by decide

theorem toNat_digit : ∀ n < 10, (48 + n).toUInt8.toNat - 48 = n := by decide

/-- A digit is none of the other bytes. -/
theorem ne_of_isDigit {b c : UInt8} (h : isDigit b = true) (hc : isDigit c = false) : b ≠ c := by
  rintro rfl
  rw [h] at hc
  cases hc

theorem isWhitespace_of_isDigit {b : UInt8} (h : isDigit b = true) : isWhitespace b = false := by
  have hne : ∀ c, isDigit c = false → b ≠ c := fun c => ne_of_isDigit h
  simp [isWhitespace, hne 0x20 (by decide), hne 0x09 (by decide), hne 0x0A (by decide),
    hne 0x0D (by decide)]

theorem isDigit_of_mem_decimal {n : Nat} {b : UInt8} (h : b ∈ decimal n) : isDigit b = true := by
  fun_induction decimal n with
  | case1 n hlt =>
      cases List.mem_singleton.mp h
      exact isDigit_of_lt n hlt
  | case2 n hge ih =>
      cases List.mem_append.mp h with
      | inl h => exact ih h
      | inr h =>
          cases List.mem_singleton.mp h
          exact isDigit_of_lt _ (Nat.mod_lt n (by decide))

theorem digitsValue_decimal (n : Nat) : digitsValue (decimal n) = n := by
  fun_induction decimal n with
  | case1 n hlt => exact (Nat.zero_add _).trans (toNat_digit n hlt)
  | case2 n hge ih =>
      rw [digitsValue] at ih ⊢
      rw [List.foldl_append, ih, List.foldl_cons, List.foldl_nil,
        toNat_digit _ (Nat.mod_lt n (by decide))]
      omega

/-- A decimal has a first digit, which is no zero unless it is the only one. -/
theorem decimal_eq_cons (n : Nat) :
    ∃ b digits, decimal n = b :: digits ∧ ¬(b = 48 ∧ digits ≠ []) := by
  fun_induction decimal n with
  | case1 n hlt => exact ⟨_, [], rfl, fun h => h.2 rfl⟩
  | case2 n hge ih =>
      obtain ⟨b, digits, heq, hb⟩ := ih
      refine ⟨b, digits ++ [(48 + n % 10).toUInt8], by rw [heq]; rfl, ?_⟩
      rintro ⟨hzero, _⟩
      -- a leading zero would be all of the quotient, which is not zero
      have hdigits : digits = [] := by
        by_contra hne
        exact hb ⟨hzero, hne⟩
      have hvalue := digitsValue_decimal (n / 10)
      rw [heq, hdigits, hzero] at hvalue
      have hzero' : digitsValue [48] = 0 := rfl
      omega

/-- What follows is no digit. -/
def Stops (rest : Bytes) : Prop := ∀ b, rest.head? = some b → isDigit b = false

theorem parseNumber_decimal (n : Nat) {rest : Bytes} (hstops : Stops rest) :
    parseNumber (decimal n ++ rest) = some (n, rest) := by
  have hdigits : ∀ b ∈ decimal n, isDigit b = true := fun b => isDigit_of_mem_decimal
  have hend : rest.takeWhile isDigit = [] ∧ rest.dropWhile isDigit = rest := by
    cases rest with
    | nil => exact ⟨rfl, rfl⟩
    | cons b rest => simp [hstops b rfl]
  unfold parseNumber
  rw [List.takeWhile_append_of_pos hdigits, List.dropWhile_append_of_pos hdigits, hend.1, hend.2,
    List.append_nil]
  have hvalue := digitsValue_decimal n
  obtain ⟨b, digits, heq, hb⟩ := decimal_eq_cons n
  rw [heq] at hvalue ⊢
  dsimp only
  rw [if_neg hb, hvalue]

/-! ### reading back -/

theorem skipWhitespace_cons {b : UInt8} (h : isWhitespace b = false) (rest : Bytes) :
    skipWhitespace (b :: rest) = b :: rest := by
  rw [skipWhitespace, List.dropWhile_cons, if_neg (by rw [h]; exact Bool.false_ne_true)]

theorem parseString_quote (rest : Bytes) : parseString (quote :: rest) = some ([], rest) := by
  unfold parseString
  dsimp only
  rw [if_pos rfl]

theorem parseString_plain {b : UInt8} (hquote : b ≠ quote) (hcontrol : ¬b < 0x20)
    (hbackslash : b ≠ backslash) (rest : Bytes) :
    parseString (b :: rest) = (parseString rest).map fun (s, rest) => (b :: s, rest) := by
  rw [parseString.eq_def]
  dsimp only
  rw [if_neg hquote, if_neg hcontrol, if_neg hbackslash]

theorem parseString_short {e b : UInt8} (h : shortEscape e = some b) (rest : Bytes) :
    parseString (backslash :: e :: rest) =
      (parseString rest).map fun (s, rest) => (b :: s, rest) := by
  have he : e ≠ 0x75 := by
    rintro rfl
    cases h
  rw [parseString.eq_def]
  dsimp only
  rw [if_neg (by decide), if_neg (by decide), if_pos rfl, if_neg he, h]
  cases parseString rest <;> rfl

theorem parseString_unicode {digits bytes : Bytes} (hlen : digits.length = 4)
    (h : (hexValue digits).bind utf8 = some bytes) (rest : Bytes) :
    parseString (backslash :: 0x75 :: (digits ++ rest)) =
      (parseString rest).map fun (s, rest) => (bytes ++ s, rest) := by
  rw [parseString.eq_def]
  dsimp only
  rw [if_neg (by decide), if_neg (by decide), if_pos rfl, if_pos rfl,
    if_neg (by rw [List.length_append]; omega), List.take_left' hlen, List.drop_left' hlen, h]
  cases parseString rest <;> rfl

section Read

variable {escape : UInt8 → Bytes}

/-- **Reading a printed string.** -/
theorem parseString_flatMap (h : Undoes escape) (s rest : Bytes) :
    parseString (s.flatMap escape ++ quote :: rest) = some (s, rest) := by
  induction s with
  | nil =>
      rw [List.flatMap_nil, List.nil_append, parseString_quote]
  | cons b s ih => rw [List.flatMap_cons, List.append_assoc, h, ih, Option.map_some]

/-- A printed value starts with a byte that is neither white space nor closes
an array. -/
theorem render_eq_cons (v : Value) : ∃ b t, render escape v = b :: t ∧
    isWhitespace b = false ∧ b ≠ closeBracket := by
  cases v with
  | null => exact ⟨_, _, rfl, by decide, by decide⟩
  | bool value => cases value <;> exact ⟨_, _, rfl, by decide, by decide⟩
  | number n =>
      obtain ⟨b, digits, heq, _⟩ := decimal_eq_cons n
      have hdigit : isDigit b = true := isDigit_of_mem_decimal (heq ▸ List.mem_cons_self)
      exact ⟨b, digits, heq, isWhitespace_of_isDigit hdigit, ne_of_isDigit hdigit (by decide)⟩
  | string s => exact ⟨_, _, rfl, by decide, by decide⟩
  | array vs => cases vs <;> exact ⟨_, _, rfl, by decide, by decide⟩
  | object ms => cases ms <;> exact ⟨_, _, rfl, by decide, by decide⟩

theorem renderString_append (s rest : Bytes) :
    renderString escape s ++ rest = quote :: (s.flatMap escape ++ quote :: rest) := by
  rw [renderString, List.cons_append, List.append_assoc]
  rfl

theorem stops_renderElements (vs : List Value) (rest : Bytes) :
    Stops (renderElements escape vs ++ rest) := by
  intro b hb
  cases vs <;> cases hb <;> decide

theorem stops_renderMembers (ms : List (Bytes × Value)) (rest : Bytes) :
    Stops (renderMembers escape ms ++ rest) := by
  intro b hb
  cases ms with
  | nil => cases hb; decide
  | cons m ms => cases hb; decide

theorem length_renderElements_pos (vs : List Value) : 0 < (renderElements escape vs).length := by
  cases vs <;> exact Nat.succ_pos _

theorem length_renderMembers_pos (ms : List (Bytes × Value)) :
    0 < (renderMembers escape ms).length := by
  cases ms with
  | nil => exact Nat.succ_pos _
  | cons m ms => exact Nat.succ_pos _

/-- One level of a value, given the readers of what is inside. -/
theorem parseValue_render_step (h : Undoes escape) {fuel : Nat}
    (hElements : ∀ (v : Value) (vs : List Value) (rest : Bytes),
      (render escape v).length + (renderElements escape vs).length ≤ fuel →
      parseElements fuel (render escape v ++ (renderElements escape vs ++ rest)) =
        some (v :: vs, rest))
    (hMembers : ∀ (key : Bytes) (v : Value) (ms : List (Bytes × Value)) (rest : Bytes),
      (render escape v).length + (renderMembers escape ms).length ≤ fuel →
      parseMembers fuel (renderString escape key ++
          colon :: (render escape v ++ (renderMembers escape ms ++ rest))) =
        some ((key, v) :: ms, rest))
    (v : Value) {rest : Bytes} (hstops : Stops rest) (hlen : (render escape v).length ≤ fuel + 1) :
    parseValue (fuel + 1) (render escape v ++ rest) = some (v, rest) := by
  cases v with
  | null => rfl
  | bool value => cases value <;> rfl
  | number n =>
      obtain ⟨b, digits, heq, _⟩ := decimal_eq_cons n
      have hdigit : isDigit b = true := isDigit_of_mem_decimal (heq ▸ List.mem_cons_self)
      have hne : ∀ c, isDigit c = false → b ≠ c := fun c => ne_of_isDigit hdigit
      have hnumber := parseNumber_decimal n hstops
      rw [render, parseValue]
      rw [heq, List.cons_append] at hnumber ⊢
      rw [skipWhitespace_cons (isWhitespace_of_isDigit hdigit)]
      dsimp only
      rw [if_neg (hne _ (by decide)), if_neg (hne _ (by decide)), if_neg (hne _ (by decide)),
        if_neg (hne _ (by decide)), if_neg (hne _ (by decide)), if_neg (hne _ (by decide)),
        hnumber]
      rfl
  | string s =>
      rw [render, renderString_append, parseValue, skipWhitespace_cons (by decide)]
      dsimp only
      rw [if_pos rfl, parseString_flatMap h]
      rfl
  | array vs =>
      cases vs with
      | nil => rfl
      | cons v vs =>
          obtain ⟨b, t, heq, hspace, hclose⟩ := @render_eq_cons escape v
          rw [render, List.length_cons, List.length_append] at hlen
          rw [render, parseValue, List.cons_append, skipWhitespace_cons (by decide)]
          dsimp only
          rw [if_neg (by decide), if_pos rfl, List.append_assoc]
          have hskip : skipWhitespace (render escape v ++ (renderElements escape vs ++ rest)) =
              b :: (t ++ (renderElements escape vs ++ rest)) := by
            rw [heq, List.cons_append, skipWhitespace_cons hspace]
          rw [hskip]
          dsimp only
          rw [if_neg hclose, hElements v vs rest (by omega)]
          rfl
  | object ms =>
      cases ms with
      | nil => rfl
      | cons m ms =>
          obtain ⟨key, v⟩ := m
          rw [render] at hlen
          simp only [List.length_cons, List.length_append] at hlen
          rw [render, parseValue, List.cons_append, skipWhitespace_cons (by decide)]
          dsimp only
          rw [if_neg (by decide), if_neg (by decide), if_pos rfl, List.append_assoc,
            List.cons_append, List.append_assoc]
          have hskip : ∀ tail, skipWhitespace (renderString escape key ++ tail) =
              quote :: (key.flatMap escape ++ quote :: tail) := by
            intro tail
            rw [renderString_append, skipWhitespace_cons (by decide)]
          rw [hskip]
          dsimp only
          rw [if_neg (by decide), hMembers key v ms rest (by omega)]
          rfl

/-- The elements of an array, where its values are read. -/
theorem parseElements_render_step {fuel : Nat}
    (hValue : ∀ (v : Value) (rest : Bytes), Stops rest → (render escape v).length ≤ fuel →
      parseValue fuel (render escape v ++ rest) = some (v, rest))
    (hElements : ∀ (v : Value) (vs : List Value) (rest : Bytes),
      (render escape v).length + (renderElements escape vs).length ≤ fuel →
      parseElements fuel (render escape v ++ (renderElements escape vs ++ rest)) =
        some (v :: vs, rest))
    (v : Value) (vs : List Value) {rest : Bytes}
    (hlen : (render escape v).length + (renderElements escape vs).length ≤ fuel + 1) :
    parseElements (fuel + 1) (render escape v ++ (renderElements escape vs ++ rest)) =
      some (v :: vs, rest) := by
  have htail := @length_renderElements_pos escape vs
  rw [parseElements, hValue v _ (stops_renderElements vs rest) (by omega)]
  dsimp only
  cases vs with
  | nil => rfl
  | cons w vs =>
      rw [renderElements, List.cons_append, skipWhitespace_cons (by decide)]
      rw [renderElements, List.length_cons, List.length_append] at hlen
      dsimp only
      rw [if_pos rfl, List.append_assoc, hElements w vs rest (by omega)]
      rfl

/-- The members of an object, where its values are read. -/
theorem parseMembers_render_step (h : Undoes escape) {fuel : Nat}
    (hValue : ∀ (v : Value) (rest : Bytes), Stops rest → (render escape v).length ≤ fuel →
      parseValue fuel (render escape v ++ rest) = some (v, rest))
    (hMembers : ∀ (key : Bytes) (v : Value) (ms : List (Bytes × Value)) (rest : Bytes),
      (render escape v).length + (renderMembers escape ms).length ≤ fuel →
      parseMembers fuel (renderString escape key ++
          colon :: (render escape v ++ (renderMembers escape ms ++ rest))) =
        some ((key, v) :: ms, rest))
    (key : Bytes) (v : Value) (ms : List (Bytes × Value)) {rest : Bytes}
    (hlen : (render escape v).length + (renderMembers escape ms).length ≤ fuel + 1) :
    parseMembers (fuel + 1) (renderString escape key ++
        colon :: (render escape v ++ (renderMembers escape ms ++ rest))) =
      some ((key, v) :: ms, rest) := by
  have htail := @length_renderMembers_pos escape ms
  rw [parseMembers, renderString_append, skipWhitespace_cons (by decide)]
  dsimp only
  rw [if_neg (not_not_intro rfl), parseString_flatMap h]
  dsimp only
  rw [skipWhitespace_cons (by decide)]
  dsimp only
  rw [if_neg (not_not_intro rfl), hValue v _ (stops_renderMembers ms rest) (by omega)]
  dsimp only
  cases ms with
  | nil => rfl
  | cons m ms =>
      obtain ⟨key', w⟩ := m
      rw [renderMembers, List.cons_append, skipWhitespace_cons (by decide)]
      rw [renderMembers] at hlen
      simp only [List.length_cons, List.length_append] at hlen
      dsimp only
      rw [if_pos rfl, List.append_assoc, List.cons_append, List.append_assoc,
        hMembers key' w ms rest (by omega)]
      rfl

/-- The three readers on printed text, by induction on the fuel. -/
theorem parse_render_core (h : Undoes escape) (fuel : Nat) :
    (∀ (v : Value) (rest : Bytes), Stops rest → (render escape v).length ≤ fuel →
      parseValue fuel (render escape v ++ rest) = some (v, rest)) ∧
    (∀ (v : Value) (vs : List Value) (rest : Bytes),
      (render escape v).length + (renderElements escape vs).length ≤ fuel →
      parseElements fuel (render escape v ++ (renderElements escape vs ++ rest)) =
        some (v :: vs, rest)) ∧
    (∀ (key : Bytes) (v : Value) (ms : List (Bytes × Value)) (rest : Bytes),
      (render escape v).length + (renderMembers escape ms).length ≤ fuel →
      parseMembers fuel (renderString escape key ++
          colon :: (render escape v ++ (renderMembers escape ms ++ rest))) =
        some ((key, v) :: ms, rest)) := by
  induction fuel with
  | zero =>
      have hpos : ∀ v : Value, 0 < (render escape v).length := by
        intro v
        obtain ⟨b, t, heq, _⟩ := @render_eq_cons escape v
        rw [heq]
        exact Nat.succ_pos _
      refine ⟨fun v rest _ hlen => ?_, fun v vs rest hlen => ?_, fun key v ms rest hlen => ?_⟩ <;>
        exact absurd (hpos v) (by omega)
  | succ fuel ih =>
      obtain ⟨ihValue, ihElements, ihMembers⟩ := ih
      refine ⟨fun v rest hstops hlen => ?_, fun v vs rest hlen => ?_,
        fun key v ms rest hlen => ?_⟩
      · exact parseValue_render_step h ihElements ihMembers v hstops hlen
      · exact parseElements_render_step ihValue ihElements v vs hlen
      · exact parseMembers_render_step h ihValue ihMembers key v ms hlen

/-- **Reading back what was printed** gives the value, and stops behind it. -/
theorem parseValue_render (h : Undoes escape) (v : Value) {rest : Bytes} (hstops : Stops rest)
    {fuel : Nat} (hfuel : (render escape v).length ≤ fuel) :
    parseValue fuel (render escape v ++ rest) = some (v, rest) :=
  (parse_render_core h fuel).1 v rest hstops hfuel

theorem parse_render (h : Undoes escape) (v : Value) {rest : Bytes} (hstops : Stops rest) :
    parse (render escape v ++ rest) = some (v, rest) :=
  parseValue_render h v hstops (by rw [List.length_append]; omega)

end Read

end Json

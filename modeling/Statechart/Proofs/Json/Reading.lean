import Statechart.Proofs.Json.Grammar
import Statechart.Proofs.Text.Trimmed

namespace Statechart.Json

theorem Blanks.isSpace {blank : List Char} (blanks : Blanks blank) :
    ∀ c ∈ blank, isSpace c = true := by
  intro c member
  have listed := blanks c member
  simp only [List.mem_cons, List.not_mem_nil, or_false] at listed
  rcases listed with rfl | rfl | rfl | rfl <;> rfl

@[simp] theorem skipSpace_append {blank : List Char} (blanks : Blanks blank) (rest : List Char) :
    skipSpace (blank ++ rest) = skipSpace rest :=
  List.dropWhile_append_of_pos blanks.isSpace

theorem skipSpace_cons {c : Char} (visible : isSpace c = false) (rest : List Char) :
    skipSpace (c :: rest) = c :: rest :=
  List.dropWhile_cons_of_neg (by simp [visible])

theorem readValue?_append {blank : List Char} (blanks : Blanks blank) (steps : Nat)
    (rest : List Char) : readValue? steps (blank ++ rest) = readValue? steps rest := by
  cases steps with
  | zero => rfl
  | succ steps => rw [readValue?, readValue?, skipSpace_append blanks]

theorem hexDigit?_of_hexDigit {c : Char} {n : Nat} (digit : HexDigit c n) :
    hexDigit? c = some n := by
  have lower : ∀ n < 16, hexDigit? (Nat.digitChar n) = some n := by decide
  have upper : ∀ n < 16, hexDigit? (Nat.digitChar n).toUpper = some n := by decide
  cases digit with
  | lower small => exact lower n small
  | upper small => exact upper n small

theorem HexDigit.lt {c : Char} {n : Nat} (digit : HexDigit c n) : n < 16 := by
  cases digit <;> assumption

theorem shortEscape?_of_mem {letter c : Char} (escape : (letter, c) ∈ shortEscapes) :
    shortEscape? letter = some c ∧ letter ≠ 'u' := by
  simp only [shortEscapes, List.mem_cons, Prod.mk.injEq, List.not_mem_nil, or_false] at escape
  rcases escape with ⟨rfl, rfl⟩ | ⟨rfl, rfl⟩ | ⟨rfl, rfl⟩ | ⟨rfl, rfl⟩ | ⟨rfl, rfl⟩ | ⟨rfl, rfl⟩ |
    ⟨rfl, rfl⟩ | ⟨rfl, rfl⟩ <;> exact ⟨rfl, by decide⟩

theorem scanPieces?_append_piece {piece : Piece} {text : List Char}
    (written : piece.Written text) (more : List Char) :
    scanPieces? (text ++ more) =
      (scanPieces? more).map fun (pieces, rest) => (piece :: pieces, rest) := by
  cases written with
  | plain graphic unquoted unescaped =>
      have notControl : ¬(_ : Char).toNat < 0x20 := Nat.not_lt.mpr graphic
      simp [scanPieces?, unescaped, notControl]
  | short escape =>
      obtain ⟨found, notNumber⟩ := shortEscape?_of_mem escape
      cases read : scanPieces? more <;> simp [scanPieces?, found, notNumber, read]
  | number first second third fourth =>
      cases read : scanPieces? more <;>
        simp [scanPieces?, unit?, hexDigit?_of_hexDigit first, hexDigit?_of_hexDigit second,
          hexDigit?_of_hexDigit third, hexDigit?_of_hexDigit fourth, read]

theorem scanPieces?_append {pieces : List Piece} {text : List Char}
    (written : PiecesWritten pieces text) (rest : List Char) :
    scanPieces? (text ++ '"' :: rest) = some (pieces, rest) := by
  induction written with
  | nil => rfl
  | cons first _ ih => rw [List.append_assoc, scanPieces?_append_piece first, ih]; rfl

theorem isHighSurrogate_iff {n : Nat} :
    isHighSurrogate n = true ↔ ∃ high < 0x400, n = 0xD800 + high := by
  simp only [isHighSurrogate, Bool.and_eq_true, decide_eq_true_eq]
  constructor
  · exact fun ⟨low, high⟩ => ⟨n - 0xD800, by omega, by omega⟩
  · rintro ⟨high, bound, rfl⟩; omega

theorem isLowSurrogate_iff {n : Nat} :
    isLowSurrogate n = true ↔ ∃ low < 0x400, n = 0xDC00 + low := by
  simp only [isLowSurrogate, Bool.and_eq_true, decide_eq_true_eq]
  constructor
  · exact fun ⟨low, high⟩ => ⟨n - 0xDC00, by omega, by omega⟩
  · rintro ⟨low, bound, rfl⟩; omega

theorem surrogate_ne_toNat (c : Char) :
    isHighSurrogate c.toNat = false ∧ isLowSurrogate c.toNat = false := by
  have valid : c.toNat < 0xD800 ∨ 0xDFFF < c.toNat ∧ c.toNat < 0x110000 := c.valid
  simp only [isHighSurrogate, isLowSurrogate, Bool.and_eq_false_iff, decide_eq_false_iff_not]
  omega

theorem joinPieces?_unit {n : Nat} (notHigh : isHighSurrogate n = false)
    (notLow : isLowSurrogate n = false) (pieces : List Piece) :
    joinPieces? (.unit n :: pieces) = (joinPieces? pieces).map (Char.ofNat n :: ·) := by
  match pieces with
  | [] => simp [joinPieces?, notHigh, notLow]
  | .char c :: rest => simp [joinPieces?, notHigh, notLow]
  | .unit low :: rest => simp [joinPieces?, notHigh, notLow]

theorem joinPieces?_of_names {pieces : List Piece} {content : List Char}
    (names : Names pieces content) : joinPieces? pieces = some content := by
  induction names with
  | nil => rfl
  | char _ ih => rw [joinPieces?, ih]; rfl
  | @unit c _ _ _ ih =>
      obtain ⟨notHigh, notLow⟩ := surrogate_ne_toNat c
      rw [joinPieces?_unit notHigh notLow, ih, Char.ofNat_toNat]
      rfl
  | @pair c high low _ _ highBits lowBits value _ ih =>
      have isHigh := isHighSurrogate_iff.mpr ⟨high, highBits, rfl⟩
      have isLow := isLowSurrogate_iff.mpr ⟨low, lowBits, rfl⟩
      have paired : pairedChar (0xD800 + high) (0xDC00 + low) = c := by
        rw [pairedChar, Nat.add_sub_cancel_left, Nat.add_sub_cancel_left, ← value,
          Char.ofNat_toNat]
      rw [joinPieces?, if_pos isHigh, if_pos isLow, ih, paired]
      rfl

def InRange (pieces : List Piece) : Prop :=
  ∀ n, Piece.unit n ∈ pieces → n < 0x10000

theorem InRange.tail {piece : Piece} {pieces : List Piece} (range : InRange (piece :: pieces)) :
    InRange pieces :=
  fun n member => range n (List.mem_cons_of_mem piece member)

theorem toNat_ofNat_of_isValidChar {n : Nat} (valid : n.isValidChar) :
    (Char.ofNat n).toNat = n := by
  rw [Char.ofNat, dif_pos valid]
  rfl

theorem toNat_ofNat_of_unit {n : Nat} (range : n < 0x10000) (notHigh : isHighSurrogate n = false)
    (notLow : isLowSurrogate n = false) : (Char.ofNat n).toNat = n := by
  simp only [isHighSurrogate, isLowSurrogate, Bool.and_eq_false_iff,
    decide_eq_false_iff_not] at notHigh notLow
  have valid : n.isValidChar := by unfold Nat.isValidChar; omega
  exact toNat_ofNat_of_isValidChar valid

theorem names_unit {n : Nat} {pieces : List Piece} {content : List Char} (range : n < 0x10000)
    (notHigh : isHighSurrogate n = false) (notLow : isLowSurrogate n = false)
    (rest : Names pieces content) : Names (.unit n :: pieces) (Char.ofNat n :: content) := by
  have named := Names.unit (c := Char.ofNat n) rest
  rwa [toNat_ofNat_of_unit range notHigh notLow] at named

theorem names_of_joinPieces? {pieces : List Piece} {content : List Char}
    (range : InRange pieces) (joined : joinPieces? pieces = some content) :
    Names pieces content := by
  fun_induction joinPieces? pieces generalizing content with
  | case1 =>
      obtain rfl := Option.some.inj joined
      exact .nil
  | case2 c rest ih =>
      obtain ⟨named, read, rfl⟩ := Option.map_eq_some_iff.mp joined
      exact .char (ih range.tail read)
  | case3 high low rest isHigh isLow ih =>
      obtain ⟨named, read, rfl⟩ := Option.map_eq_some_iff.mp joined
      obtain ⟨high, highBits, rfl⟩ := isHighSurrogate_iff.mp isHigh
      obtain ⟨low, lowBits, rfl⟩ := isLowSurrogate_iff.mp isLow
      refine .pair highBits lowBits ?_ (ih range.tail.tail read)
      have valid : (0x10000 + high * 0x400 + low).isValidChar := by
        unfold Nat.isValidChar
        omega
      rw [pairedChar, Nat.add_sub_cancel_left, Nat.add_sub_cancel_left,
        toNat_ofNat_of_isValidChar valid]
  | case4 high low rest isHigh notLow => contradiction
  | case5 high low rest notHigh isLow => contradiction
  | case6 high low rest notHigh notLow ih =>
      obtain ⟨named, read, rfl⟩ := Option.map_eq_some_iff.mp joined
      exact names_unit (range high (List.mem_cons_self ..)) (by simpa using notHigh)
        (by simpa using notLow) (ih range.tail read)
  | case7 n rest notPair surrogate => contradiction
  | case8 n rest notPair whole ih =>
      obtain ⟨named, read, rfl⟩ := Option.map_eq_some_iff.mp joined
      simp only [Bool.or_eq_true, not_or, Bool.not_eq_true] at whole
      exact names_unit (range n (List.mem_cons_self ..)) whole.1 whole.2 (ih range.tail read)

theorem inRange_of_written {pieces : List Piece} {text : List Char}
    (written : PiecesWritten pieces text) : InRange pieces := by
  induction written with
  | nil => exact nofun
  | cons first _ ih =>
      intro n member
      cases List.mem_cons.mp member with
      | inr member => exact ih n member
      | inl same =>
          cases first with
          | plain | short => contradiction
          | number first second third fourth =>
              have := first.lt
              have := second.lt
              have := third.lt
              have := fourth.lt
              obtain rfl := Piece.unit.inj same
              omega

theorem readString?_append {content : Option String} {text : List Char}
    (written : StringWritten content text) (rest : List Char) :
    ∃ inside, text = '"' :: inside ∧ readString? (inside ++ rest) = some (content, rest) := by
  cases written with
  | @named content pieces text parts names =>
      refine ⟨text ++ ['"'], rfl, ?_⟩
      simp [readString?, scanPieces?_append parts, joinPieces?_of_names names]
  | @nameless pieces text parts nameless =>
      refine ⟨text ++ ['"'], rfl, ?_⟩
      have unjoined : joinPieces? pieces = none :=
        Option.eq_none_iff_forall_ne_some.mpr fun content joined =>
          nameless content (names_of_joinPieces? (inRange_of_written parts) joined)
      simp [readString?, scanPieces?_append parts, unjoined]

/-- A text that does not carry on a number before it. -/
def EndsNumber (text : List Char) : Prop :=
  ∀ c ∈ text.head?, c.isDigit = false ∧ c ∉ ['.', 'e', 'E']

theorem readDigits_append {digits rest : List Char} (decimal : ∀ c ∈ digits, c.isDigit = true)
    (ends : ∀ c ∈ rest.head?, c.isDigit = false) :
    readDigits (digits ++ rest) = (digits.map fun c => c.toNat - '0'.toNat, rest) := by
  rw [readDigits, Text.takeWhile_append_of_stops decimal ends,
    Text.dropWhile_append_of_stops decimal ends]

theorem digits_append_ne_cons {digits rest more : List Char} {sign : Char}
    (someDigit : digits ≠ []) (decimal : ∀ c ∈ digits, c.isDigit = true)
    (notDigit : sign.isDigit = false) : digits ++ rest ≠ sign :: more := by
  intro same
  match digits with
  | [] => exact someDigit rfl
  | c :: digits =>
      obtain ⟨rfl, -⟩ := List.cons.inj same
      exact Bool.false_ne_true (notDigit.symm.trans (decimal c (List.mem_cons_self ..)))

theorem valueOfDigits_map (digits : List Char) :
    valueOfDigits (digits.map fun c => c.toNat - '0'.toNat) = Nat.ofDigitChars 10 digits 0 := by
  rw [valueOfDigits, List.foldl_map]
  rfl

namespace DigitRow

variable {digits : List Nat}

theorem isDigit (row : DigitRow digits) : ∀ c ∈ digits.map Nat.digitChar, c.isDigit = true := by
  intro c member
  obtain ⟨digit, listed, rfl⟩ := List.mem_map.mp member
  rw [Nat.isDigit_digitChar, decide_eq_true (row.decimal digit listed)]

theorem map_digitChar (row : DigitRow digits) :
    (digits.map Nat.digitChar).map (fun c => c.toNat - '0'.toNat) = digits := by
  rw [List.map_map]
  exact (List.map_congr_left fun digit listed =>
    Nat.toNat_digitChar_sub_48_of_lt_ten (row.decimal digit listed)).trans (List.map_id digits)

theorem readDigits_append {rest : List Char} (row : DigitRow digits)
    (ends : ∀ c ∈ rest.head?, c.isDigit = false) :
    readDigits (digits.map Nat.digitChar ++ rest) = (digits, rest) := by
  rw [Json.readDigits_append row.isDigit ends, row.map_digitChar]

end DigitRow

section

variable {rest : List Char}

theorem EndsNumber.append_fraction {fraction : List Nat} {text : List Char}
    (written : FractionWritten fraction text) (ends : ∀ c ∈ rest.head?, c.isDigit = false) :
    ∀ c ∈ (text ++ rest).head?, c.isDigit = false := by
  cases written with
  | absent => exact ends
  | digits => rintro c ⟨⟩; rfl

theorem EndsNumber.append_exponent {exponent : Option Int} {text : List Char}
    (written : ExponentWritten exponent text) (ends : EndsNumber rest) :
    ∀ c ∈ (text ++ rest).head?, c.isDigit = false ∧ c ≠ '.' := by
  cases written with
  | absent => exact fun c first => ⟨(ends c first).1, fun same => (ends c first).2 (by simp [same])⟩
  | power marked =>
      rintro c ⟨⟩
      rcases marked with rfl | rfl <;> decide

theorem readFraction?_append {fraction : List Nat} {text : List Char}
    (written : FractionWritten fraction text)
    (ends : ∀ c ∈ rest.head?, c.isDigit = false ∧ c ≠ '.') :
    readFraction? (text ++ rest) = some (fraction, rest) := by
  cases written with
  | absent =>
      match rest with
      | [] => rfl
      | c :: rest =>
          have noPoint : c ≠ '.' := (ends c rfl).2
          simp [readFraction?, noPoint]
  | digits row =>
      have read := row.readDigits_append fun c first => (ends c first).1
      simp only [List.cons_append, readFraction?, read]
      split
      · next same => exact absurd (congrArg Prod.fst same) row.some_digit
      · rfl

theorem readPower?_append {digits : List Char} {n : Nat} (negative : Bool)
    (spelled : Text.Digits digits n) (ends : ∀ c ∈ rest.head?, c.isDigit = false) :
    readPower? negative (digits ++ rest) =
      some (some (if negative then -(n : Int) else n), rest) := by
  rw [readPower?, readDigits_append spelled.digits ends]
  split
  · next same =>
    have empty : (digits.map fun c => c.toNat - '0'.toNat) = [] := congrArg Prod.fst same
    exact absurd (List.map_eq_nil_iff.mp empty) spelled.some_digit
  · next values left _ same =>
    obtain ⟨rfl, rfl⟩ := Prod.mk.inj same
    rw [valueOfDigits_map, ← spelled.value_eq]

theorem readExponent?_append {exponent : Option Int} {text : List Char}
    (written : ExponentWritten exponent text) (ends : EndsNumber rest) :
    readExponent? (text ++ rest) = some (exponent, rest) := by
  have notDigit : ∀ c ∈ rest.head?, c.isDigit = false := fun c first => (ends c first).1
  cases written with
  | absent =>
      match rest with
      | [] => rfl
      | c :: rest =>
          have noMark : c ∉ ['.', 'e', 'E'] := (ends c rfl).2
          simp only [List.mem_cons, not_or] at noMark
          simp [readExponent?, noMark.2.1, noMark.2.2.1]
  | @power mark power text marked spelled =>
      have isMark : (mark == 'e' || mark == 'E') = true := by simpa using marked
      cases spelled with
      | unsigned spelled =>
          rw [List.cons_append, readExponent?, if_pos isMark]
          · exact readPower?_append false spelled notDigit
          · exact fun _ => digits_append_ne_cons spelled.some_digit spelled.digits rfl
          · exact fun _ => digits_append_ne_cons spelled.some_digit spelled.digits rfl
      | plus spelled =>
          rw [List.cons_append, List.cons_append, readExponent?, if_pos isMark]
          exact readPower?_append false spelled notDigit
      | minus spelled =>
          rw [List.cons_append, List.cons_append, readExponent?, if_pos isMark]
          exact readPower?_append true spelled notDigit

theorem readUnsigned?_append (negative : Bool) {whole fraction : List Nat}
    {exponent : Option Int} {point power : List Char} (row : DigitRow whole)
    (leading : whole = [0] ∨ whole.head? ≠ some 0) (fractional : FractionWritten fraction point)
    (scaled : ExponentWritten exponent power) (ends : EndsNumber rest) :
    readUnsigned? negative (whole.map Nat.digitChar ++ (point ++ (power ++ rest))) =
      some (⟨negative, whole, fraction, exponent⟩, rest) := by
  have endsFraction := EndsNumber.append_exponent scaled ends
  have endsWhole := EndsNumber.append_fraction fractional fun c first => (endsFraction c first).1
  rw [readUnsigned?, row.readDigits_append endsWhole]
  split
  · next same => exact absurd (congrArg Prod.fst same) row.some_digit
  · next second others left same =>
    obtain ⟨rfl, -⟩ := Prod.mk.inj same
    simp at leading
  · next same =>
    obtain ⟨rfl, rfl⟩ := Prod.mk.inj same
    simp [readFraction?_append fractional endsFraction, readExponent?_append scaled ends]

theorem readNumeral?_append {numeral : Numeral} {text : List Char}
    (written : numeral.Written text) (ends : EndsNumber rest) :
    readNumeral? (text ++ rest) = some (numeral, rest) := by
  obtain ⟨point, power, rfl, fractional, scaled⟩ := written.parts
  have read (negative : Bool) := readUnsigned?_append negative written.row written.leading
    fractional scaled ends
  obtain ⟨negative, whole, fraction, exponent⟩ := numeral
  cases negative with
  | true => simpa [readNumeral?] using read true
  | false =>
      have someDigit : whole.map Nat.digitChar ≠ [] := by simpa using written.row.some_digit
      simp only [Bool.false_eq_true, if_false, List.nil_append, List.append_assoc]
      rw [readNumeral?, read false]
      exact fun _ => digits_append_ne_cons someDigit written.row.isDigit rfl

end

theorem EndsNumber.append_blanks {blank rest : List Char} (blanks : Blanks blank)
    (ends : EndsNumber rest) : EndsNumber (blank ++ rest) := by
  match blank with
  | [] => exact ends
  | c :: blank =>
      rintro _ ⟨⟩
      have listed := blanks c (List.mem_cons_self ..)
      simp only [List.mem_cons, List.not_mem_nil, or_false] at listed
      rcases listed with rfl | rfl | rfl | rfl <;> decide

theorem endsNumber_cons {c : Char} (notDigit : c.isDigit = false) (other : c ∉ ['.', 'e', 'E'])
    (rest : List Char) : EndsNumber (c :: rest) := by
  rintro _ ⟨⟩
  exact ⟨notDigit, other⟩

theorem Numeral.Written.begins {numeral : Numeral} {text : List Char}
    (written : numeral.Written text) :
    ∃ c more, text = c :: more ∧ (c = '-' ∨ c.isDigit = true) := by
  obtain ⟨point, power, rfl, -, -⟩ := written.parts
  have row := written.row
  obtain ⟨negative, whole, fraction, exponent⟩ := numeral
  match negative, whole with
  | true, whole => exact ⟨'-', _, rfl, Or.inl rfl⟩
  | false, [] => exact absurd rfl row.some_digit
  | false, digit :: whole =>
      exact ⟨Nat.digitChar digit, _, rfl, Or.inr (row.isDigit _ (List.mem_cons_self ..))⟩

theorem readValue?_number {numeral : Numeral} {text rest : List Char} (steps : Nat)
    (written : numeral.Written text) (ends : EndsNumber rest) :
    readValue? (steps + 1) (text ++ rest) = some (.number numeral, rest) := by
  have read := readNumeral?_append written ends
  obtain ⟨c, more, rfl, begins⟩ := written.begins
  have other : c ∉ [' ', '\n', '\t', '\r', '"', '[', '\x7b', 't', 'f', 'n'] := by
    intro listed
    rcases begins with rfl | digit
    · simp at listed
    · have notDigit : ∀ c ∈ [' ', '\n', '\t', '\r', '"', '[', '\x7b', 't', 'f', 'n'],
          c.isDigit = false := by simp
      exact Bool.false_ne_true ((notDigit c listed).symm.trans digit)
  simp only [List.mem_cons, List.not_mem_nil, or_false, not_or] at other
  have visible : isSpace c = false := by simp [isSpace, other]
  rw [List.cons_append] at read ⊢
  rw [readValue?, skipSpace_cons visible]
  simp [other, read]

theorem StringWritten.ne_nil {content : Option String} {text : List Char}
    (written : StringWritten content text) : text ≠ [] := by
  cases written <;> simp

theorem Value.Written.ne_nil {value : Value} {text : List Char} (written : value.Written text) :
    text ≠ [] := by
  cases written with
  | number spelled =>
      obtain ⟨c, more, rfl, -⟩ := spelled.begins
      exact List.cons_ne_nil c more
  | text spelled => exact spelled.ne_nil
  | null | yes | no | emptyArray | array | emptyObject | object => simp

theorem readItems?_close {text rest : List Char} (closed : skipSpace text = ']' :: rest)
    (steps : Nat) : readItems? steps text = none := by
  match steps with
  | 0 => rfl
  | 1 => rfl
  | steps + 2 =>
      simp [readItems?, readValue?, closed, readNumeral?, readUnsigned?, readDigits]

theorem readMembers?_close {text rest : List Char} (closed : skipSpace text = '\x7d' :: rest)
    (steps : Nat) : readMembers? steps text = none := by
  cases steps with
  | zero => rfl
  | succ steps => simp [readMembers?, closed]

mutual

theorem readValue?_of_written {value : Value} {text rest : List Char} {steps : Nat}
    (written : value.Written text) (enough : text.length ≤ steps) (ends : EndsNumber rest) :
    readValue? steps (text ++ rest) = some (value, rest) := by
  match steps with
  | 0 => exact absurd (List.length_eq_zero_iff.mp (Nat.le_zero.mp enough)) written.ne_nil
  | steps + 1 =>
    cases written with
    | null | yes | no => rfl
    | number spelled => exact readValue?_number steps spelled ends
    | text spelled =>
        obtain ⟨inside, rfl, read⟩ := readString?_append spelled rest
        simp [readValue?, skipSpace_cons (show isSpace '"' = false from rfl), read]
    | @emptyArray blank blanks =>
        have closed : skipSpace (blank ++ ']' :: rest) = ']' :: rest := skipSpace_append blanks _
        simp [readValue?, skipSpace_cons (show isSpace '[' = false from rfl), closed]
    | @array items inner inside =>
        simp only [List.length_append, List.length_cons] at enough
        have read : readItems? steps (inner ++ ']' :: rest) = some (items, rest) :=
          readItems?_of_written inside (by omega)
        simp only [List.append_assoc, List.nil_append, List.cons_append, readValue?,
          skipSpace_cons (show isSpace '[' = false from rfl)]
        split
        · next closed => simp [readItems?_close closed] at read
        · rw [read]; rfl
    | @emptyObject blank blanks =>
        have closed : skipSpace (blank ++ '\x7d' :: rest) = '\x7d' :: rest :=
          skipSpace_append blanks _
        simp [readValue?, skipSpace_cons (show isSpace '\x7b' = false from rfl), closed]
    | @object members inner inside =>
        simp only [List.length_append, List.length_cons] at enough
        have read : readMembers? steps (inner ++ '\x7d' :: rest) = some (members, rest) :=
          readMembers?_of_written inside (by omega)
        simp only [List.append_assoc, List.nil_append, List.cons_append, readValue?,
          skipSpace_cons (show isSpace '\x7b' = false from rfl)]
        split
        · next closed => simp [readMembers?_close closed] at read
        · rw [read]; rfl
termination_by (steps, 0)

theorem readValue?_of_padded {value : Value} {text rest : List Char} {steps : Nat}
    (padded : value.Padded text) (enough : text.length ≤ steps) (ends : EndsNumber rest) :
    ∃ left, readValue? steps (text ++ rest) = some (value, left) ∧
      skipSpace left = skipSpace rest := by
  cases padded with
  | @mk _ before inner after blankBefore written blankAfter =>
      simp only [List.length_append] at enough
      have fits : inner.length ≤ steps := by omega
      have read := readValue?_of_written written fits (ends.append_blanks blankAfter)
      refine ⟨after ++ rest, ?_, skipSpace_append blankAfter rest⟩
      rw [List.append_assoc, List.append_assoc, readValue?_append blankBefore, read]
termination_by (steps, 1)

theorem readItems?_of_written {items : List Value} {text rest : List Char} {steps : Nat}
    (written : ItemsWritten items text) (enough : text.length < steps) :
    readItems? steps (text ++ ']' :: rest) = some (items, rest) := by
  match steps with
  | 0 => exact absurd enough (Nat.not_lt_zero _)
  | steps + 1 =>
    cases written with
    | last padded =>
        obtain ⟨left, read, goesOn⟩ := readValue?_of_padded padded (Nat.le_of_lt_succ enough)
          (endsNumber_cons (c := ']') rfl (by decide) rest)
        rw [readItems?, read]
        simp [goesOn, skipSpace_cons (show isSpace ']' = false from rfl)]
    | @cons item items text more padded written =>
        simp only [List.length_append, List.length_cons] at enough
        have fits : text.length ≤ steps := by omega
        obtain ⟨left, read, goesOn⟩ := readValue?_of_padded padded fits
          (endsNumber_cons (c := ',') rfl (by decide) (more ++ ']' :: rest))
        have readMore : readItems? steps (more ++ ']' :: rest) = some (items, rest) :=
          readItems?_of_written written (by omega)
        rw [List.append_assoc, List.cons_append, readItems?, read]
        simp [goesOn, skipSpace_cons (show isSpace ',' = false from rfl), readMore]
termination_by (steps, 0)

theorem readMembers?_of_member {member : Option String × Value} {text rest : List Char}
    {steps : Nat} (written : MemberWritten member text) (enough : text.length ≤ steps)
    (ends : EndsNumber rest) :
    (∀ more, skipSpace rest = ',' :: more → readMembers? (steps + 1) (text ++ rest) =
      (readMembers? steps more).map fun (members, rest) => (member :: members, rest)) ∧
    ∀ more, skipSpace rest = '\x7d' :: more →
      readMembers? (steps + 1) (text ++ rest) = some ([member], more) := by
  cases written with
  | @mk key value before name after text blankBefore spelled blankAfter padded =>
      simp only [List.length_append, List.length_cons] at enough
      have fits : text.length ≤ steps := by omega
      obtain ⟨left, read, goesOn⟩ := readValue?_of_padded padded fits ends
      obtain ⟨inside, rfl, readKey⟩ := readString?_append spelled (after ++ ':' :: text ++ rest)
      have colon : skipSpace (after ++ ':' :: text ++ rest) = ':' :: (text ++ rest) := by
        rw [List.append_assoc, skipSpace_append blankAfter]
        rfl
      have quote : skipSpace (before ++ '"' :: inside ++ after ++ ':' :: text ++ rest) =
          '"' :: (inside ++ (after ++ ':' :: text ++ rest)) := by
        simp only [List.append_assoc, skipSpace_append blankBefore]
        rfl
      constructor <;> intro more follows <;>
        simp only [readMembers?, quote, readKey, colon, read, goesOn, follows]
termination_by (steps, 2)

theorem readMembers?_of_written {members : List (Option String × Value)} {text rest : List Char}
    {steps : Nat} (written : MembersWritten members text) (enough : text.length < steps) :
    readMembers? steps (text ++ '\x7d' :: rest) = some (members, rest) := by
  match steps with
  | 0 => exact absurd enough (Nat.not_lt_zero _)
  | steps + 1 =>
    cases written with
    | last written =>
        exact (readMembers?_of_member written (Nat.le_of_lt_succ enough)
          (endsNumber_cons rfl (by decide) rest)).2 rest rfl
    | @cons member members text more written others =>
        simp only [List.length_append, List.length_cons] at enough
        have readMore : readMembers? steps (more ++ '\x7d' :: rest) = some (members, rest) :=
          readMembers?_of_written others (by omega)
        have fits : text.length ≤ steps := by omega
        have readFirst := readMembers?_of_member written fits
          (endsNumber_cons (c := ',') rfl (by decide) (more ++ '\x7d' :: rest))
        rw [List.append_assoc, List.cons_append, readFirst.1 _ rfl, readMore]
        rfl
termination_by (steps, 0)

end

/-- What a text holds is what is read from it. -/
theorem read?_of_holds {text : String} {value : Value} (holds : Holds text value) :
    Value.read? text = some value := by
  have fits : text.toList.length ≤ 2 * text.toList.length + 1 := by omega
  have ends : EndsNumber [] := nofun
  obtain ⟨left, read, goesOn⟩ := readValue?_of_padded holds fits ends
  rw [List.append_nil] at read
  simp only [Value.read?, read, goesOn]
  rfl

end Statechart.Json

import FieldArchive.Json.Parser
import FieldArchive.Json.Printer
import FieldArchive.Proofs.Hex
import FieldArchive.Proofs.Number.Digits

/-!
# JSON text is read back

Reading inverts writing, in every style that puts only blanks between tokens:
the text of a tree is read as that tree, and what follows the text is left.
The one condition is that numerals are spelled as the grammar wants them, with
no needless zero in front.  The main result is `parse_pretty`.
-/

namespace FieldArchive

/-- A numeral whose whole part is one digit or does not start with zero. -/
def Numeral.IsWritten (n : Numeral) : Prop :=
  ∃ d rest, n.whole = d :: rest ∧ (rest = [] ∨ d.val ≠ 0)

namespace Json

/-! ## What may follow a numeral -/

/-- True for a character that would go on a numeral. -/
def continuesNumeral (c : Char) : Bool :=
  (Digit.ofChar? c).isSome || c == '.' || c == 'e' || c == 'E'

/-- A text that does not go on a numeral before it. -/
def EndsNumeral (rest : List Char) : Prop := ∀ c ∈ rest.head?, continuesNumeral c = false

theorem endsNumeral_nil : EndsNumeral [] := by
  intro c hc
  cases hc

theorem endsNumeral_cons {c : Char} {rest : List Char} (h : continuesNumeral c = false) :
    EndsNumeral (c :: rest) := by
  intro c' hc'
  simp only [List.head?_cons, Option.mem_some_iff] at hc'
  exact hc' ▸ h

theorem continuesNumeral_of_isBlank {c : Char} (h : isBlank c = true) :
    continuesNumeral c = false := by
  simp only [isBlank, Bool.or_eq_true, beq_iff_eq] at h
  rcases h with ((rfl | rfl) | rfl) | rfl <;> decide

theorem ofChar?_of_endsNumeral {rest : List Char} (h : EndsNumeral rest) :
    ∀ c ∈ rest.head?, Digit.ofChar? c = none := by
  intro c hc
  have hEnd := h c hc
  simp only [continuesNumeral, Bool.or_eq_false_iff] at hEnd
  simpa using hEnd.1.1.1

theorem head_ne_of_endsNumeral {c : Char} {rest : List Char} (h : EndsNumeral (c :: rest)) :
    c ≠ '.' ∧ c ≠ 'e' ∧ c ≠ 'E' := by
  have hEnd := h c (by simp)
  simp only [continuesNumeral, Bool.or_eq_false_iff, beq_eq_false_iff_ne] at hEnd
  exact ⟨hEnd.1.1.2, hEnd.1.2, hEnd.2⟩

/-! ## Numerals -/

theorem someDigits_chars {digits : List Digit} (hNe : digits ≠ []) {rest : List Char}
    (h : ∀ c ∈ rest.head?, Digit.ofChar? c = none) :
    someDigits (Digits.chars digits ++ rest) = some (digits, rest) := by
  unfold someDigits
  rw [Digits.span_chars_append digits rest h]
  cases digits with
  | nil => contradiction
  | cons d ds => rfl

theorem wholePart_chars {n : Numeral} (h : n.IsWritten) {rest : List Char}
    (hRest : ∀ c ∈ rest.head?, Digit.ofChar? c = none) :
    wholePart (Digits.chars n.whole ++ rest) = some (n.whole, rest) := by
  obtain ⟨d, ds, hWhole, hLead⟩ := h
  unfold wholePart
  rw [someDigits_chars (by simp [hWhole]) hRest, hWhole]
  cases ds with
  | nil => rfl
  | cons e ds =>
      have hd : d.val ≠ 0 := by simpa using hLead
      simp [hd]

theorem signedExponent_chars (e : Int) {rest : List Char}
    (h : ∀ c ∈ rest.head?, Digit.ofChar? c = none) :
    signedExponent ((if e < 0 then '-' else '+') ::
      (Digits.chars (Digits.ofNat e.natAbs) ++ rest)) =
      some (e, rest) := by
  have hDigits := someDigits_chars (Digits.ofNat_ne_nil e.natAbs) h
  by_cases hSign : e < 0
  · have hValue : -(e.natAbs : Int) = e := by omega
    rw [if_pos hSign]
    simp only [signedExponent, hDigits, Option.map_some, Digits.toNat_ofNat, hValue]
  · have hValue : (e.natAbs : Int) = e := by omega
    rw [if_neg hSign]
    simp only [signedExponent, hDigits, Option.map_some, Digits.toNat_ofNat, hValue]

/-- The exponent of a numeral as it is written. -/
def exponentChars : Option Int → List Char
  | none => []
  | some e => 'e' :: (if e < 0 then '-' else '+') :: Digits.chars (Digits.ofNat e.natAbs)

/-- The fraction of a numeral as it is written. -/
def fractionChars (fraction : List Digit) : List Char :=
  if fraction.isEmpty then [] else '.' :: Digits.chars fraction

theorem exponentPart_chars (e : Option Int) {rest : List Char} (h : EndsNumeral rest) :
    exponentPart (exponentChars e ++ rest) = some (e, rest) := by
  cases e with
  | none =>
      cases rest with
      | nil => rfl
      | cons c rest =>
          obtain ⟨-, he, hE⟩ := head_ne_of_endsNumeral h
          simp only [exponentChars, List.nil_append]
          unfold exponentPart
          split
          · next heq => exact absurd (List.cons.inj heq).1 he
          · next heq => exact absurd (List.cons.inj heq).1 hE
          · rfl
  | some e =>
      have hDigits := signedExponent_chars e (ofChar?_of_endsNumeral h)
      simp only [exponentChars, List.cons_append, exponentPart, hDigits, Option.map_some]

/-- After the whole part and after the fraction no further digit follows. -/
theorem ofChar?_exponentChars (e : Option Int) {rest : List Char} (h : EndsNumeral rest) :
    ∀ c ∈ (exponentChars e ++ rest).head?, Digit.ofChar? c = none := by
  cases e with
  | none => exact ofChar?_of_endsNumeral h
  | some e =>
      intro c hc
      simp only [exponentChars, List.cons_append, List.head?_cons, Option.mem_some_iff] at hc
      subst hc
      decide

theorem fractionPart_chars (fraction : List Digit) (e : Option Int) {rest : List Char}
    (h : EndsNumeral rest) :
    fractionPart (fractionChars fraction ++ (exponentChars e ++ rest)) =
      some (fraction, exponentChars e ++ rest) := by
  cases fraction with
  | cons d ds =>
      have hDigits := someDigits_chars (List.cons_ne_nil d ds) (ofChar?_exponentChars e h)
      simp only [fractionChars, List.isEmpty_cons, Bool.false_eq_true, if_false,
        List.cons_append, fractionPart, hDigits]
  | nil =>
      simp only [fractionChars, List.isEmpty_nil, if_true, List.nil_append]
      cases e with
      | some e => simp [exponentChars, fractionPart]
      | none =>
          cases rest with
          | nil => rfl
          | cons c rest =>
              obtain ⟨hDot, -, -⟩ := head_ne_of_endsNumeral h
              simp only [exponentChars, List.nil_append]
              unfold fractionPart
              split
              · next heq => exact absurd (List.cons.inj heq).1 hDot
              · rfl

theorem ofChar?_fractionChars (fraction : List Digit) (e : Option Int) {rest : List Char}
    (h : EndsNumeral rest) :
    ∀ c ∈ (fractionChars fraction ++ (exponentChars e ++ rest)).head?,
      Digit.ofChar? c = none := by
  cases fraction with
  | nil => simpa [fractionChars] using ofChar?_exponentChars e h
  | cons d ds =>
      intro c hc
      simp only [fractionChars, List.isEmpty_cons, Bool.false_eq_true, if_false,
        List.cons_append, List.head?_cons, Option.mem_some_iff] at hc
      subst hc
      decide

theorem numeral_chars_eq (n : Numeral) :
    n.chars = (if n.negative then ['-'] else []) ++
      (Digits.chars n.whole ++ (fractionChars n.fraction ++ exponentChars n.exponent)) := by
  obtain ⟨negative, whole, fraction, exponent⟩ := n
  cases exponent <;> simp [Numeral.chars, fractionChars, exponentChars]

theorem unsignedNumeral_chars {n : Numeral} (h : n.IsWritten) {rest : List Char}
    (hRest : EndsNumeral rest) :
    unsignedNumeral n.negative
        (Digits.chars n.whole ++ (fractionChars n.fraction ++ (exponentChars n.exponent ++ rest))) =
      some (n, rest) := by
  simp only [unsignedNumeral, Option.bind_eq_bind,
    wholePart_chars h (ofChar?_fractionChars n.fraction n.exponent hRest), Option.bind_some,
    fractionPart_chars n.fraction n.exponent hRest, exponentPart_chars n.exponent hRest]

theorem toChar_ne_minus : ∀ d : Digit, d.toChar ≠ '-' := by decide

/-- A numeral is read back, up to what follows it. -/
theorem numeral_chars {n : Numeral} (h : n.IsWritten) {rest : List Char}
    (hRest : EndsNumeral rest) : numeral (n.chars ++ rest) = some (n, rest) := by
  have hUnsigned := unsignedNumeral_chars h hRest
  rw [numeral_chars_eq]
  cases hSign : n.negative with
  | true =>
      rw [hSign] at hUnsigned
      simpa [numeral] using hUnsigned
  | false =>
      rw [hSign] at hUnsigned
      obtain ⟨d, ds, hWhole, -⟩ := h
      simp only [hWhole, Digits.chars, List.map_cons, List.cons_append] at hUnsigned
      simp only [Bool.false_eq_true, if_false, List.nil_append, hWhole, Digits.chars,
        List.map_cons, List.cons_append, List.append_assoc]
      unfold numeral
      split
      · next heq => exact absurd (List.cons.inj heq).1 (toChar_ne_minus d)
      · exact hUnsigned

/-! ## Strings -/

/-- A control character is read from its code of four digits. -/
theorem pieces_escaped_code {c : Char} (h : c.toNat < 32) (rest : List Char) :
    pieces ('\\' :: 'u' :: ((Hex.digitsOf 4 c.toNat).map Hex.digit ++ rest)) =
      (pieces rest).map fun r => (.scalar c :: r.1, r.2) := by
  have hDigits := Hex.mapM_value?_digits (Hex.digitsOf 4 c.toNat)
  have hNat : Hex.toNat (Hex.digitsOf 4 c.toNat) = c.toNat := Hex.toNat_digitsOf (by omega)
  have hCode : Piece.ofCode c.toNat = .scalar c := by
    have hLow : ¬(0xD800 ≤ c.toNat ∧ c.toNat < 0xE000) := by omega
    simp [Piece.ofCode, hLow, Char.ofNat_toNat]
  simp only [Hex.digitsOf, List.nil_append, List.cons_append, List.map_cons, List.map_nil]
    at hDigits hNat ⊢
  simp only [pieces, hDigits, Option.bind_eq_bind, Option.bind_some, hNat, hCode]
  cases pieces rest <;> rfl

/-- A character after a backslash is read as what it stands for. -/
theorem pieces_unescape {e c : Char} (h : unescape? e = some c) (hCode : e ≠ 'u')
    (rest : List Char) :
    pieces ('\\' :: e :: rest) = (pieces rest).map fun r => (.scalar c :: r.1, r.2) := by
  rw [pieces.eq_def]
  split
  · next heq => cases heq
  · next heq => exact absurd (List.cons.inj heq).1 (by decide)
  · next heq => exact absurd (List.cons.inj (List.cons.inj heq).2).1 hCode
  · next heq =>
      obtain ⟨rfl, rfl⟩ := List.cons.inj (List.cons.inj heq).2
      simp only [h, Option.bind_eq_bind, Option.bind_some]
      cases pieces rest <;> rfl
  · next hPair heq =>
      obtain ⟨hHead, hTail⟩ := List.cons.inj heq
      exact (hPair e rest hHead.symm hTail.symm).elim

/-- An escaped character is read as one piece. -/
theorem pieces_escape (c : Char) (rest : List Char) :
    pieces (escape c ++ rest) = (pieces rest).map fun r => (.scalar c :: r.1, r.2) := by
  unfold escape
  split
  · exact pieces_unescape rfl (by decide) rest
  · exact pieces_unescape rfl (by decide) rest
  · exact pieces_unescape rfl (by decide) rest
  · exact pieces_unescape rfl (by decide) rest
  · exact pieces_unescape rfl (by decide) rest
  · exact pieces_unescape rfl (by decide) rest
  · exact pieces_unescape rfl (by decide) rest
  · next hQuote hBackslash _ _ _ _ _ =>
      split
      · next hControl => exact pieces_escaped_code hControl rest
      · next hPrintable =>
          rw [List.singleton_append, pieces.eq_def]
          split
          · next heq => simp at heq
          · next heq => exact absurd (List.cons.inj heq).1 hQuote
          · next heq => exact absurd (List.cons.inj heq).1 hBackslash
          · next heq => exact absurd (List.cons.inj heq).1 hBackslash
          · next heq =>
              obtain ⟨rfl, rfl⟩ := List.cons.inj heq
              have hGuard : (decide (c < ' ') || c == '\\') = false := by
                simp only [hPrintable, decide_false, Bool.false_or, beq_eq_false_iff_ne]
                exact hBackslash
              simp only [hGuard]
              cases pieces rest <;> rfl

theorem pieces_escapes (cs rest : List Char) :
    pieces (cs.flatMap escape ++ '"' :: rest) = some (cs.map .scalar, rest) := by
  induction cs with
  | nil => simp [pieces]
  | cons c cs ih =>
      rw [List.flatMap_cons, List.append_assoc, pieces_escape, ih]
      rfl

theorem joinPieces_scalars (cs : List Char) : joinPieces (cs.map .scalar) = some cs := by
  induction cs with
  | nil => rfl
  | cons c cs ih => simp [joinPieces, ih]

/-- A string in quotes is read back, also one without a text. -/
theorem quoted_quote (t : Option String) (rest : List Char) :
    ∃ cs, quote t = '"' :: cs ∧ quoted (cs ++ rest) = some (t, rest) := by
  cases t with
  | none => exact ⟨_, rfl, rfl⟩
  | some text =>
      refine ⟨text.toList.flatMap escape ++ ['"'], rfl, ?_⟩
      rw [List.append_assoc, List.singleton_append]
      simp [quoted, pieces_escapes, joinPieces_scalars]

/-! ## Trees -/

/-- A tree in which all numerals are spelled as the grammar wants them. -/
inductive IsWritten : Json → Prop
  | null : IsWritten .null
  | bool (b : Bool) : IsWritten (.bool b)
  | number {n : Numeral} (h : n.IsWritten) : IsWritten (.number n)
  | string (t : Option String) : IsWritten (.string t)
  | array {items : List Json} (h : ∀ j ∈ items, IsWritten j) : IsWritten (.array items)
  | object {members : List (Option String × Json)} (h : ∀ m ∈ members, IsWritten m.2) :
      IsWritten (.object members)

/-- A style that puts nothing but blanks between tokens. -/
structure Style.IsBlank (style : Style) : Prop where
  lineBreak : ∀ level, ∀ c ∈ style.lineBreak level, Json.isBlank c = true
  afterColon : ∀ c ∈ style.afterColon, Json.isBlank c = true

theorem Style.isBlank_compact : Style.compact.IsBlank where
  lineBreak := by simp [Style.compact]
  afterColon := by simp [Style.compact]

theorem Style.isBlank_pretty : Style.pretty.IsBlank where
  lineBreak := by
    intro level c hc
    simp only [Style.pretty, List.mem_cons, List.mem_replicate] at hc
    rcases hc with rfl | ⟨-, rfl⟩ <;> decide
  afterColon := by
    intro c hc
    simp only [Style.pretty, List.mem_singleton] at hc
    subst hc
    decide

/-- A text that starts with a character, which is no blank. -/
def StartsFull (cs : List Char) : Prop := ∃ c rest, cs = c :: rest ∧ isBlank c = false

theorem skipBlanks_of_startsFull {cs : List Char} (h : StartsFull cs) : skipBlanks cs = cs := by
  obtain ⟨c, rest, rfl, hc⟩ := h
  simp [skipBlanks, hc]

theorem skipBlanks_append {blanks cs : List Char} (h : ∀ c ∈ blanks, isBlank c = true)
    (hFull : StartsFull cs) : skipBlanks (blanks ++ cs) = cs := by
  induction blanks with
  | nil => exact skipBlanks_of_startsFull hFull
  | cons c blanks ih =>
      have hc : isBlank c = true := h c (by simp)
      have hRest := ih fun c' hc' => h c' (by simp [hc'])
      simpa [skipBlanks, hc] using hRest

/-- The characters that the text of a value may start with. -/
def startsValue (c : Char) : Bool :=
  (Digit.ofChar? c).isSome || c ∈ ['n', 't', 'f', '"', '[', '\x7b', '-']

theorem startsValue_toChar : ∀ d : Digit, startsValue d.toChar = true := by decide

/-- The text of a value starts with one of these characters. -/
theorem exists_cons_render (style : Style) (level : Nat) {j : Json} (h : j.IsWritten) :
    ∃ c rest, render style level j = c :: rest ∧ startsValue c = true := by
  cases h with
  | null => exact ⟨'n', ['u', 'l', 'l'], rfl, by decide⟩
  | bool b =>
      cases b with
      | true => exact ⟨'t', ['r', 'u', 'e'], rfl, by decide⟩
      | false => exact ⟨'f', ['a', 'l', 's', 'e'], rfl, by decide⟩
  | @number n hn =>
      obtain ⟨d, ds, hWhole, -⟩ := hn
      rw [render, numeral_chars_eq]
      cases n.negative with
      | true => exact ⟨'-', _, rfl, by decide⟩
      | false => exact ⟨d.toChar, _, by rw [hWhole]; rfl, startsValue_toChar d⟩
  | string t =>
      obtain ⟨cs, hQuote, -⟩ := quoted_quote t []
      exact ⟨'"', cs, by rw [render, hQuote], by decide⟩
  | @array items _ =>
      cases items with
      | nil => exact ⟨'[', [']'], by simp [render], by decide⟩
      | cons item items => exact ⟨'[', _, by rw [render]; rfl, by decide⟩
  | @object members _ =>
      cases members with
      | nil => exact ⟨'\x7b', ['\x7d'], by simp [render], by decide⟩
      | cons m members =>
          exact ⟨'\x7b', _, by rw [render]; rfl, by decide⟩

theorem not_blank_of_startsValue {c : Char} (h : startsValue c = true) :
    isBlank c = false ∧ c ≠ ']' ∧ c ≠ '\x7d' := by
  have hBlank : isBlank c = false := by
    cases hb : isBlank c with
    | false => rfl
    | true =>
        simp only [isBlank, Bool.or_eq_true, beq_iff_eq] at hb
        rcases hb with ((rfl | rfl) | rfl) | rfl <;> exact absurd h (by decide)
  refine ⟨hBlank, ?_, ?_⟩
  · rintro rfl
    exact absurd h (by decide)
  · rintro rfl
    exact absurd h (by decide)

theorem startsFull_render (style : Style) (level : Nat) {j : Json} (h : j.IsWritten)
    (rest : List Char) : StartsFull (render style level j ++ rest) := by
  obtain ⟨c, cs, hRender, hc⟩ := exists_cons_render style level h
  exact ⟨c, cs ++ rest, by rw [hRender]; rfl, (not_blank_of_startsValue hc).1⟩

theorem length_render_pos (style : Style) (level : Nat) {j : Json} (h : j.IsWritten) :
    0 < (render style level j).length := by
  obtain ⟨c, cs, hRender, -⟩ := exists_cons_render style level h
  simp [hRender]

theorem value_skip (fuel : Nat) {blanks cs : List Char} (h : ∀ c ∈ blanks, isBlank c = true)
    (hFull : StartsFull cs) : value (fuel + 1) (blanks ++ cs) = value (fuel + 1) cs := by
  rw [value, value, skipBlanks_append h hFull, skipBlanks_of_startsFull hFull]

/-- A value that starts with a digit or a sign is a numeral. -/
theorem value_numeral (fuel : Nat) {c : Char} (cs : List Char)
    (h : c ∉ ['n', 't', 'f', '"', '[', '\x7b']) (hBlank : isBlank c = false) :
    value (fuel + 1) (c :: cs) =
      (numeral (c :: cs)).map fun r => (.number r.1, r.2) := by
  have hSkip : skipBlanks (c :: cs) = c :: cs :=
    skipBlanks_of_startsFull ⟨c, cs, rfl, hBlank⟩
  simp only [List.mem_cons, List.not_mem_nil, or_false, not_or] at h
  obtain ⟨hn, ht, hf, hq, ha, ho⟩ := h
  rw [value, hSkip]
  split
  · next heq => exact absurd (List.cons.inj heq).1 hn
  · next heq => exact absurd (List.cons.inj heq).1 ht
  · next heq => exact absurd (List.cons.inj heq).1 hf
  · next heq => exact absurd (List.cons.inj heq).1 hq
  · next heq => exact absurd (List.cons.inj heq).1 ha
  · next heq => exact absurd (List.cons.inj heq).1 ho
  · rfl

theorem toChar_startsNumeral : ∀ d : Digit,
    d.toChar ∉ ['n', 't', 'f', '"', '[', '\x7b'] ∧ isBlank d.toChar = false := by decide

theorem value_number (fuel : Nat) {n : Numeral} (h : n.IsWritten) {rest : List Char}
    (hRest : EndsNumeral rest) :
    value (fuel + 1) (n.chars ++ rest) = some (.number n, rest) := by
  have hRead := numeral_chars h hRest
  obtain ⟨d, ds, hWhole, -⟩ := h
  have hHead : ∃ c cs, n.chars = c :: cs ∧ c ∉ ['n', 't', 'f', '"', '[', '\x7b'] ∧
      isBlank c = false := by
    rw [numeral_chars_eq]
    cases n.negative with
    | true => exact ⟨'-', _, rfl, by decide⟩
    | false => exact ⟨d.toChar, _, by rw [hWhole]; rfl, toChar_startsNumeral d⟩
  obtain ⟨c, cs, hChars, hc, hBlank⟩ := hHead
  rw [hChars, List.cons_append] at hRead ⊢
  rw [value_numeral fuel _ hc hBlank, hRead]
  rfl

/-- What is read from the text of a tree: the tree and the rest of the text. -/
def Reads (style : Style) (j : Json) : Prop :=
  ∀ (level fuel : Nat) (blanks rest : List Char), (∀ c ∈ blanks, isBlank c = true) →
    EndsNumeral rest → (render style level j).length ≤ fuel →
    value fuel (blanks ++ (render style level j ++ rest)) = some (j, rest)

/-- After an item comes a blank, a comma or a closing bracket. -/
theorem endsNumeral_blanks {blanks : List Char} (h : ∀ c ∈ blanks, isBlank c = true) {c : Char}
    {rest : List Char} (hc : continuesNumeral c = false) :
    EndsNumeral (blanks ++ c :: rest) := by
  cases blanks with
  | nil => exact endsNumeral_cons hc
  | cons b blanks => exact endsNumeral_cons (continuesNumeral_of_isBlank (h b (by simp)))

theorem items_render {style : Style} (hStyle : style.IsBlank) (level : Nat) {lineEnd : List Char}
    (hEnd : ∀ c ∈ lineEnd, isBlank c = true) (rest : List Char) (more : List Json) :
    ∀ (item : Json) (fuel : Nat) (blanks : List Char), (∀ c ∈ blanks, isBlank c = true) →
      Reads style item → (∀ j ∈ more, Reads style j ∧ j.IsWritten) → item.IsWritten →
      (render style level item).length + (renderItems style level more).length < fuel →
      items fuel (blanks ++ (render style level item ++
        (renderItems style level more ++ (lineEnd ++ ']' :: rest)))) =
          some (item :: more, rest) := by
  -- by the items that follow, so that the blanks and the fuel may change on the way
  induction more with
  | nil =>
      intro item fuel blanks hBlanks hItem _ _ hFuel
      obtain ⟨fuel, rfl⟩ : ∃ n, fuel = n + 1 := ⟨fuel - 1, by omega⟩
      have hNext : EndsNumeral (lineEnd ++ ']' :: rest) := endsNumeral_blanks hEnd (by decide)
      have hValue := hItem level fuel blanks _ hBlanks hNext (by omega)
      have hSkip : skipBlanks (lineEnd ++ ']' :: rest) = ']' :: rest :=
        skipBlanks_append hEnd ⟨']', rest, rfl, by decide⟩
      simp only [renderItems, List.nil_append, items, hValue, Option.bind_eq_bind,
        Option.bind_some, hSkip]
  | cons next more ih =>
      intro item fuel blanks hBlanks hItem hMore hWritten hFuel
      obtain ⟨fuel, rfl⟩ : ∃ n, fuel = n + 1 := ⟨fuel - 1, by omega⟩
      obtain ⟨hNextReads, hNextWritten⟩ := hMore next (by simp)
      have hPos := length_render_pos style level hWritten
      simp only [renderItems, List.cons_append, List.length_cons, List.length_append,
        List.append_assoc] at hFuel ⊢
      have hValue := hItem level fuel blanks
        (',' :: (style.lineBreak level ++ (render style level next ++
          (renderItems style level more ++ (lineEnd ++ ']' :: rest)))))
        hBlanks (endsNumeral_cons (by decide)) (by omega)
      have hRest := ih next fuel (style.lineBreak level) (hStyle.lineBreak level) hNextReads
        (fun j hj => hMore j (by simp [hj])) hNextWritten (by omega)
      have hSkip : ∀ cs, skipBlanks (',' :: cs) = ',' :: cs := fun cs =>
        skipBlanks_of_startsFull ⟨',', cs, rfl, by decide⟩
      simp only [items, hValue, Option.bind_eq_bind, Option.bind_some, hSkip, hRest,
        Option.map_some]

theorem members_render {style : Style} (hStyle : style.IsBlank) (level : Nat)
    {lineEnd : List Char} (hEnd : ∀ c ∈ lineEnd, isBlank c = true) (rest : List Char)
    (more : List (Option String × Json)) :
    ∀ (key : Option String) (item : Json) (fuel : Nat) (blanks : List Char),
      (∀ c ∈ blanks, isBlank c = true) →
      Reads style item → (∀ m ∈ more, Reads style m.2 ∧ m.2.IsWritten) → item.IsWritten →
      (render style level item).length + (renderMembers style level more).length < fuel →
      members fuel (blanks ++ (quote key ++ (':' :: (style.afterColon ++
        (render style level item ++
          (renderMembers style level more ++ (lineEnd ++ '\x7d' :: rest))))))) =
          some ((key, item) :: more, rest) := by
  have hColon : ∀ cs, skipBlanks (':' :: cs) = ':' :: cs := fun cs =>
    skipBlanks_of_startsFull ⟨':', cs, rfl, by decide⟩
  have hKey : ∀ (key : Option String) (blanks cs : List Char),
      (∀ c ∈ blanks, isBlank c = true) → ∃ body, skipBlanks (blanks ++ (quote key ++ cs)) =
        '"' :: (body ++ cs) ∧ quoted (body ++ cs) = some (key, cs) := by
    intro key blanks cs hBlanks
    obtain ⟨body, hQuote, hRead⟩ := quoted_quote key cs
    refine ⟨body, ?_, hRead⟩
    rw [hQuote, List.cons_append]
    exact skipBlanks_append hBlanks ⟨'"', _, rfl, by decide⟩
  -- by the members that follow, as for items
  induction more with
  | nil =>
      intro key item fuel blanks hBlanks hItem _ _ hFuel
      obtain ⟨fuel, rfl⟩ : ∃ n, fuel = n + 1 := ⟨fuel - 1, by omega⟩
      have hNext : EndsNumeral (lineEnd ++ '\x7d' :: rest) := endsNumeral_blanks hEnd (by decide)
      have hValue := hItem level fuel style.afterColon _ hStyle.afterColon hNext (by omega)
      have hSkip : skipBlanks (lineEnd ++ '\x7d' :: rest) = '\x7d' :: rest :=
        skipBlanks_append hEnd ⟨'\x7d', rest, rfl, by decide⟩
      simp only [renderMembers, List.nil_append]
      obtain ⟨body, hStart, hQuoted⟩ := hKey key blanks (':' :: (style.afterColon ++
        (render style level item ++ (lineEnd ++ '\x7d' :: rest)))) hBlanks
      simp only [members, hStart, hQuoted, Option.bind_eq_bind, Option.bind_some, hColon,
        hValue, hSkip]
  | cons next more ih =>
      intro key item fuel blanks hBlanks hItem hMore hWritten hFuel
      obtain ⟨fuel, rfl⟩ : ∃ n, fuel = n + 1 := ⟨fuel - 1, by omega⟩
      obtain ⟨nextKey, nextItem⟩ := next
      obtain ⟨hNextReads, hNextWritten⟩ := hMore (nextKey, nextItem) (by simp)
      have hPos := length_render_pos style level hWritten
      simp only [renderMembers, List.cons_append, List.length_cons, List.length_append,
        List.append_assoc] at hFuel ⊢
      have hValue := hItem level fuel style.afterColon
        (',' :: (style.lineBreak level ++ (quote nextKey ++ (':' :: (style.afterColon ++
          (render style level nextItem ++
            (renderMembers style level more ++ (lineEnd ++ '\x7d' :: rest))))))))
        hStyle.afterColon (endsNumeral_cons (by decide)) (by omega)
      have hRest := ih nextKey nextItem fuel (style.lineBreak level) (hStyle.lineBreak level)
        hNextReads (fun m hm => hMore m (by simp [hm])) hNextWritten (by omega)
      have hSkip : ∀ cs, skipBlanks (',' :: cs) = ',' :: cs := fun cs =>
        skipBlanks_of_startsFull ⟨',', cs, rfl, by decide⟩
      obtain ⟨body, hStart, hQuoted⟩ := hKey key blanks (':' :: (style.afterColon ++
        (render style level item ++ (',' :: (style.lineBreak level ++ (quote nextKey ++
          (':' :: (style.afterColon ++ (render style level nextItem ++
            (renderMembers style level more ++ (lineEnd ++ '\x7d' :: rest))))))))))) hBlanks
      simp only [members, hStart, hQuoted, Option.bind_eq_bind, Option.bind_some, hColon,
        hValue, hSkip, hRest, Option.map_some]

/-- A tree is read if it is where nothing stands before its text.  There is fuel for one
step, since no text is empty. -/
theorem reads_of_value {style : Style} {j : Json} (hWritten : j.IsWritten)
    (h : ∀ (level fuel : Nat) (rest : List Char), EndsNumeral rest →
      (render style level j).length ≤ fuel + 1 →
      value (fuel + 1) (render style level j ++ rest) = some (j, rest)) : Reads style j := by
  intro level fuel blanks rest hBlanks hRest hFuel
  have hPos := length_render_pos style level hWritten
  obtain ⟨fuel, rfl⟩ : ∃ n, fuel = n + 1 := ⟨fuel - 1, by omega⟩
  rw [value_skip fuel hBlanks (startsFull_render style level hWritten rest)]
  exact h level fuel rest hRest hFuel

theorem reads_string (style : Style) (t : Option String) : Reads style (.string t) := by
  refine reads_of_value (.string t) fun level fuel rest _ _ => ?_
  obtain ⟨body, hQuote, hRead⟩ := quoted_quote t rest
  have hSkip : skipBlanks ('"' :: (body ++ rest)) = '"' :: (body ++ rest) :=
    skipBlanks_of_startsFull ⟨'"', _, rfl, by decide⟩
  rw [render, hQuote, List.cons_append, value, hSkip]
  simp only [hRead, Option.map_some]

/-- An array is read if its items are. -/
theorem reads_array {style : Style} (hStyle : style.IsBlank) {items : List Json}
    (hItems : ∀ j ∈ items, j.IsWritten) (ih : ∀ j ∈ items, Reads style j) :
    Reads style (.array items) := by
  refine reads_of_value (.array hItems) fun level fuel rest _ hFuel => ?_
  cases items with
  | nil => rfl
  | cons item more =>
      have hItem : item.IsWritten := hItems item (by simp)
      obtain ⟨c, cs, hRender, hc⟩ := exists_cons_render style (level + 1) hItem
      obtain ⟨hBlank, hBracket, -⟩ := not_blank_of_startsValue hc
      simp only [render, List.cons_append, List.length_cons, List.length_append,
        List.append_assoc, List.nil_append, List.length_nil] at hFuel ⊢
      have hRead := items_render hStyle (level + 1) (hStyle.lineBreak level) rest more item
        fuel [] (by simp) (ih item (by simp))
        (fun j hj => ⟨ih j (by simp [hj]), hItems j (by simp [hj])⟩) hItem (by omega)
      simp only [List.nil_append] at hRead
      have hSkip := skipBlanks_append (hStyle.lineBreak (level + 1))
        (startsFull_render style (level + 1) hItem
          (renderItems style (level + 1) more ++ (style.lineBreak level ++ ']' :: rest)))
      have hOpen : ∀ cs, skipBlanks ('[' :: cs) = '[' :: cs := fun cs =>
        skipBlanks_of_startsFull ⟨'[', cs, rfl, by decide⟩
      rw [value, hOpen]
      simp only [hSkip]
      -- the text of an item does not start with the bracket that ends an empty array
      split
      · next heq =>
          rw [hRender, List.cons_append] at heq
          exact absurd (List.cons.inj heq).1 hBracket
      · rw [hRead]
        rfl

/-- An object is read if the values of its members are. -/
theorem reads_object {style : Style} (hStyle : style.IsBlank)
    {members : List (Option String × Json)} (hMembers : ∀ m ∈ members, m.2.IsWritten)
    (ih : ∀ m ∈ members, Reads style m.2) : Reads style (.object members) := by
  refine reads_of_value (.object hMembers) fun level fuel rest _ hFuel => ?_
  cases members with
  | nil => rfl
  | cons m more =>
      obtain ⟨key, item⟩ := m
      simp only [render, List.cons_append, List.length_cons, List.length_append,
        List.append_assoc, List.nil_append, List.length_nil] at hFuel ⊢
      have hRead := members_render hStyle (level + 1) (hStyle.lineBreak level) rest more key
        item fuel [] (by simp) (ih (key, item) (by simp))
        (fun m hm => ⟨ih m (by simp [hm]), hMembers m (by simp [hm])⟩)
        (hMembers (key, item) (by simp)) (by omega)
      obtain ⟨body, hQuote, -⟩ := quoted_quote key []
      simp only [hQuote, List.nil_append, List.cons_append] at hRead ⊢
      have hSkip := skipBlanks_append (hStyle.lineBreak (level + 1))
        (show StartsFull ('"' :: (body ++ (':' :: (style.afterColon ++
          (render style (level + 1) item ++ (renderMembers style (level + 1) more ++
            (style.lineBreak level ++ '\x7d' :: rest))))))) from ⟨'"', _, rfl, by decide⟩)
      have hOpen : ∀ cs, skipBlanks ('\x7b' :: cs) = '\x7b' :: cs := fun cs =>
        skipBlanks_of_startsFull ⟨'\x7b', cs, rfl, by decide⟩
      rw [value, hOpen]
      simp only [hSkip]
      -- a key starts with a quotation mark, not with the brace that ends an empty object
      split
      · next heq => exact absurd (List.cons.inj heq).1 (by decide)
      · rw [hRead]
        rfl

/-- The text of every written tree is read back.  The induction is on the tree, with the
lists of items and members read by the lemmas above. -/
theorem reads_of_isWritten {style : Style} (hStyle : style.IsBlank) {j : Json}
    (h : j.IsWritten) : Reads style j := by
  induction h with
  | null => exact reads_of_value .null fun _ _ _ _ _ => rfl
  | bool b => exact reads_of_value (.bool b) fun _ _ _ _ _ => by cases b <;> rfl
  | number hn =>
      refine reads_of_value (.number hn) fun level fuel rest hRest _ => ?_
      rw [render]
      exact value_number fuel hn hRest
  | string t => exact reads_string style t
  | array hItems ih => exact reads_array hStyle hItems ih
  | object hMembers ih => exact reads_object hStyle hMembers ih

theorem parse_render {style : Style} (hStyle : style.IsBlank) {j : Json} (h : j.IsWritten) :
    parse (String.ofList (render style 0 j)) = some j := by
  have hRead := reads_of_isWritten hStyle h 0 (2 * (render style 0 j).length + 2) [] []
    (by simp) endsNumeral_nil (by omega)
  simp only [List.nil_append, List.append_nil] at hRead
  simp only [parse, String.toList_ofList, hRead, Option.bind_eq_bind, Option.bind_some]
  rfl

/-- The text with a line for each item is read back. -/
theorem parse_pretty {j : Json} (h : j.IsWritten) : parse j.pretty = some j :=
  parse_render Style.isBlank_pretty h

/-- The text without blanks is read back. -/
theorem parse_compact {j : Json} (h : j.IsWritten) : parse j.compact = some j :=
  parse_render Style.isBlank_compact h

end Json
end FieldArchive

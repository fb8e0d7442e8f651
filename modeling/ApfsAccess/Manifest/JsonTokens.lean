import ApfsAccess.Manifest.JsonParser

/-!
# The tokens of the manifest parser

Every function below `ParseValue` reads one kind of token: what it accepts is a token of the grammar with
the rest of the text behind it, and a token is accepted whatever follows it that could not be a part of
it.  None of them reads past the end.

* `parseString_sound`, `parseString_complete` : strings, their escapes decoded to UTF-8.
* `parseNumber_sound`, `parseNumber_complete` : numbers.
-/

namespace ApfsAccess
namespace Manifest
namespace JsonParser

open Json Loops

/-- The parser neither read past the end nor ran out of fuel. -/
def Safe {α : Type} (answer : Except JsonError α) : Prop :=
  answer ≠ .error .pastEnd ∧ answer ≠ .error .outOfFuel

section Safety

variable {α β : Type}

theorem safe_ok (value : α) : Safe (.ok value : Except JsonError α) := ⟨nofun, nofun⟩

theorem safe_refused (text : String) : Safe (.error (.refused text) : Except JsonError α) :=
  ⟨nofun, nofun⟩

theorem Safe.bind {first : Except JsonError α} {next : α → Except JsonError β} (hfirst : Safe first)
    (hnext : ∀ value, first = .ok value → Safe (next value)) : Safe (first >>= next) := by
  cases first with
  | ok value => exact hnext value rfl
  | error error => exact ⟨fun h => hfirst.1 (congrArg Except.error (Except.error.inj h)),
      fun h => hfirst.2 (congrArg Except.error (Except.error.inj h))⟩

end Safety

section Spaces

variable {text space : Text}

@[simp] theorem advance_cons (ch : UInt8) (rest : Text) : advance (ch :: rest) = .ok rest := rfl

theorem skipSpace_cons_of_space {ch : UInt8} (h : IsSpace ch) (rest : Text) :
    skipSpace (ch :: rest) = skipSpace rest := if_pos h

theorem skipSpace_cons_of_not {ch : UInt8} (h : ¬IsSpace ch) (rest : Text) :
    skipSpace (ch :: rest) = ch :: rest := if_neg h

theorem skipSpace_append (h : Space space) (text : Text) :
    skipSpace (space ++ text) = skipSpace text := by
  induction space with
  | nil => rfl
  | cons ch rest ih =>
    rw [List.cons_append, skipSpace_cons_of_space (h ch List.mem_cons_self),
      ih fun byte hbyte => h byte (List.mem_cons_of_mem _ hbyte)]

theorem skipSpace_of_head (h : ∀ ch ∈ text.head?, ¬IsSpace ch) : skipSpace text = text := by
  cases text with
  | nil => rfl
  | cons ch rest => rw [skipSpace_cons_of_not (h ch rfl)]

/-- Whitespace is skipped as far as it goes. -/
theorem exists_space (text : Text) : ∃ space, Space space ∧ text = space ++ skipSpace text := by
  induction text with
  | nil => exact ⟨[], fun _ h => absurd h List.not_mem_nil, rfl⟩
  | cons ch rest ih =>
    rw [skipSpace]
    split_ifs with hch
    · obtain ⟨space, hspace, hrest⟩ := ih
      refine ⟨ch :: space, ?_, by rw [List.cons_append, ← hrest]⟩
      rintro byte hbyte
      obtain rfl | hbyte := List.mem_cons.mp hbyte
      · exact hch
      · exact hspace byte hbyte
    · exact ⟨[], fun _ h => absurd h List.not_mem_nil, rfl⟩

theorem length_skipSpace_le (text : Text) : (skipSpace text).length ≤ text.length := by
  obtain ⟨space, -, htext⟩ := exists_space text
  have hlength := congrArg List.length htext
  rw [List.length_append] at hlength
  omega

theorem expect_eq_ok_iff {want : UInt8} {rest : Text} :
    expect want text = .ok rest ↔ text = want :: rest := by
  cases text with
  | nil => exact iff_of_false nofun nofun
  | cons ch after =>
    rw [expect, List.cons.injEq]
    split_ifs with h
    · exact iff_of_false nofun fun hand => h hand.1
    · rw [Except.ok.injEq, not_not.mp h]
      exact ⟨fun hrest => ⟨rfl, hrest⟩, And.right⟩

theorem safe_expect (want : UInt8) (text : Text) : Safe (expect want text) := by
  cases text with
  | nil => exact safe_refused _
  | cons ch rest =>
    rw [expect]
    split_ifs
    · exact safe_refused _
    · exact safe_ok _

theorem startsWith_iff {want : UInt8} :
    startsWith want text = true ↔ ∃ rest, text = want :: rest := by
  cases text with
  | nil => exact iff_of_false nofun nofun
  | cons ch rest =>
    rw [startsWith, beq_iff_eq]
    exact ⟨fun h => ⟨rest, by rw [h]⟩, fun ⟨_, h⟩ => (List.cons.inj h).1⟩

end Spaces

section CodeUnits

theorem hexValue_eq_some_iff {ch : UInt8} {value : ℕ} :
    hexValue ch = some value ↔ HexDigit ch value := by
  unfold hexValue HexDigit
  constructor
  · intro h
    split_ifs at h with h0 h1 h2
    · exact .inl ⟨h0.1, h0.2, (Option.some.inj h).symm⟩
    · exact .inr (.inl ⟨h1.1, h1.2, (Option.some.inj h).symm⟩)
    · exact .inr (.inr ⟨h2.1, h2.2, (Option.some.inj h).symm⟩)
  · have hle : ∀ a b : UInt8, a ≤ b ↔ a.toNat ≤ b.toNat := fun a b => UInt8.le_iff_toNat_le
    rintro (⟨hlow, hhigh, rfl⟩ | ⟨hlow, hhigh, rfl⟩ | ⟨hlow, hhigh, rfl⟩)
    · rw [if_pos ⟨hlow, hhigh⟩]
    · have hnot : ¬(0x30 ≤ ch ∧ ch ≤ 0x39) := by
        rintro ⟨-, hdigit⟩
        rw [hle] at hlow hdigit
        exact absurd (hlow.trans hdigit) (by decide)
      rw [if_neg hnot, if_pos ⟨hlow, hhigh⟩]
    · have hnot : ¬(0x30 ≤ ch ∧ ch ≤ 0x39) := by
        rintro ⟨-, hdigit⟩
        rw [hle] at hlow hdigit
        exact absurd (hlow.trans hdigit) (by decide)
      have hnot' : ¬(0x61 ≤ ch ∧ ch ≤ 0x66) := by
        rintro ⟨hletter, -⟩
        rw [hle] at hhigh hletter
        exact absurd (hletter.trans hhigh) (by decide)
      rw [if_neg hnot, if_neg hnot', if_pos ⟨hlow, hhigh⟩]

/-- `ParseHex4` reads a code unit. -/
theorem parseHex4_eq_ok_iff {text rest : Text} {word : ℕ} :
    parseHex4 text = .ok (word, rest) ↔ ∃ digits, CodeUnit digits word ∧ text = digits ++ rest := by
  constructor
  · intro h
    match text with
    | [] => cases h
    | [_] => cases h
    | [_, _] => cases h
    | [_, _, _] => cases h
    | a :: b :: c :: d :: after =>
      rw [parseHex4, if_neg (by simp)] at h
      simp only [hexLoop, peek, advance, bind, Except.bind] at h
      cases ha : hexValue a with
      | none => simp [ha] at h
      | some u =>
        cases hb : hexValue b with
        | none => simp [ha, hb] at h
        | some v =>
          cases hc : hexValue c with
          | none => simp [ha, hb, hc] at h
          | some w =>
            cases hd : hexValue d with
            | none => simp [ha, hb, hc, hd] at h
            | some x =>
              simp only [ha, hb, hc, hd, Except.ok.injEq, Prod.mk.injEq] at h
              obtain ⟨hword, rfl⟩ := h
              exact ⟨[a, b, c, d], ⟨a, b, c, d, u, v, w, x, hexValue_eq_some_iff.mp ha,
                hexValue_eq_some_iff.mp hb, hexValue_eq_some_iff.mp hc,
                hexValue_eq_some_iff.mp hd, rfl, by omega⟩, rfl⟩
  · rintro ⟨digits, ⟨a, b, c, d, u, v, w, x, ha, hb, hc, hd, rfl, rfl⟩, rfl⟩
    rw [parseHex4, if_neg (by simp)]
    simp only [List.cons_append, hexLoop, peek, advance, bind, Except.bind,
      hexValue_eq_some_iff.mpr ha, hexValue_eq_some_iff.mpr hb, hexValue_eq_some_iff.mpr hc,
      hexValue_eq_some_iff.mpr hd, Except.ok.injEq, Prod.mk.injEq, List.nil_append, and_true]
    omega

theorem safe_hexLoop (count word : ℕ) {text : Text} (h : count ≤ text.length) :
    Safe (hexLoop count word text) := by
  induction count generalizing word text with
  | zero => exact safe_ok _
  | succ count ih =>
    cases text with
    | nil => exact absurd h (by simp)
    | cons ch rest =>
      simp only [hexLoop, peek, advance, bind, Except.bind]
      cases hexValue ch with
      | none => exact safe_refused _
      | some digit => exact ih _ (by simpa using h)

theorem safe_parseHex4 (text : Text) : Safe (parseHex4 text) := by
  unfold parseHex4
  split_ifs with h
  · exact safe_refused _
  · exact safe_hexLoop _ _ (not_lt.mp h)

theorem codeUnit_lt {digits : Text} {unit : ℕ} (h : CodeUnit digits unit) : unit < 0x10000 := by
  have hdigit : ∀ {ch : UInt8} {value : ℕ}, HexDigit ch value → value < 16 := by
    intro ch value h
    simp only [HexDigit, UInt8.le_iff_toNat_le] at h
    have h39 : (0x39 : UInt8).toNat = 0x39 := rfl
    have h66 : (0x66 : UInt8).toNat = 0x66 := rfl
    have h46 : (0x46 : UInt8).toNat = 0x46 := rfl
    omega
  obtain ⟨a, b, c, d, u, v, w, x, ha, hb, hc, hd, -, rfl⟩ := h
  have hu := hdigit ha
  have hv := hdigit hb
  have hw := hdigit hc
  have hx := hdigit hd
  omega

end CodeUnits

section Utf8

theorem toNat_ofNat_of_isValidChar {code : ℕ} (h : code.isValidChar) :
    (Char.ofNat code).val.toNat = code := by
  rw [Char.ofNat, dif_pos h]
  rfl

/-- A mark and the payload under it. -/
theorem or_eq_add {payload : ℕ} (bits mark : ℕ) (hpayload : payload < 2 ^ bits) :
    2 ^ bits * mark ||| payload = payload + 2 ^ bits * mark := by
  rw [← Nat.two_pow_add_eq_or_of_lt hpayload, Nat.add_comm]

/-- A byte that continues a code. -/
theorem continuation_eq (code : ℕ) : 0x80 ||| (code &&& 0x3f) = code % 0x40 + 0x80 := by
  rw [show (0x3f : ℕ) = 2 ^ 6 - 1 from rfl, Nat.and_two_pow_sub_one_eq_mod]
  exact or_eq_add 6 2 (Nat.mod_lt _ (by norm_num))

/-- `AppendUtf8` is the encoding. -/
theorem appendUtf8_eq {code : ℕ} (hcode : code < 0x10000) (h : ¬(0xd800 ≤ code ∧ code ≤ 0xdfff)) :
    appendUtf8 code = utf8 code := by
  have hvalid : code.isValidChar := by
    unfold Nat.isValidChar
    omega
  unfold appendUtf8 utf8 String.utf8EncodeChar
  rw [toNat_ofNat_of_isValidChar hvalid]
  simp only [continuation_eq, Nat.shiftRight_eq_div_pow, Nat.reducePow]
  by_cases h7 : code < 0x80
  · rw [if_pos h7, if_pos (by omega)]
  rw [if_neg h7, if_neg (show ¬code ≤ 0x7f by omega)]
  by_cases h11 : code < 0x800
  · have hlead : 0xc0 ||| code / 64 = code / 64 % 0x20 + 0xc0 := by
      rw [Nat.mod_eq_of_lt (by omega)]
      exact or_eq_add 5 6 (by omega)
    rw [if_pos h11, if_pos (by omega), hlead]
  · have hlead : 0xe0 ||| code / 4096 = code / 4096 % 0x10 + 0xe0 := by
      rw [Nat.mod_eq_of_lt (by omega)]
      exact or_eq_add 4 14 (by omega)
    rw [if_neg h11, if_neg (by omega), if_pos (by omega), hlead]

/-- The four bytes of a pair are the encoding. -/
theorem pairUtf8_eq {full : ℕ} (hlow : 0x10000 ≤ full) (hhigh : full < 0x110000) :
    pairUtf8 full = utf8 full := by
  have hvalid : full.isValidChar := by
    unfold Nat.isValidChar
    omega
  have hlead : 0xf0 ||| full / 262144 = full / 262144 % 0x08 + 0xf0 := by
    rw [Nat.mod_eq_of_lt (by omega)]
    exact or_eq_add 3 30 (by omega)
  unfold pairUtf8 utf8 String.utf8EncodeChar
  rw [toNat_ofNat_of_isValidChar hvalid]
  simp only [continuation_eq, Nat.shiftRight_eq_div_pow, Nat.reducePow, hlead]
  rw [if_neg (by omega), if_neg (by omega), if_neg (by omega)]

end Utf8

section Strings

variable {text rest bytes decoded : Text}

theorem simpleEscape_eq_some_iff {esc byte : UInt8} :
    simpleEscape esc = some byte ↔ Escape esc byte := by
  constructor
  · intro h
    unfold simpleEscape at h
    split_ifs at h <;> obtain rfl := Option.some.inj h <;> subst esc <;> constructor
  · rintro (_ | _) <;> rfl

/-- The escape of one code unit. -/
theorem parseUnicode_unicode {digits : Text} {unit : ℕ} (hdigits : CodeUnit digits unit)
    (h : ¬(0xd800 ≤ unit ∧ unit ≤ 0xdfff)) (rest : Text) :
    parseUnicode (digits ++ rest) = .ok (utf8 unit, rest) := by
  unfold parseUnicode
  rw [parseHex4_eq_ok_iff.mpr ⟨digits, hdigits, rfl⟩]
  simp only [bind, Except.bind]
  rw [if_neg (by omega), if_neg h, appendUtf8_eq (codeUnit_lt hdigits) h]

/-- The escapes of a surrogate pair. -/
theorem parseUnicode_pair {digits more : Text} {high low : ℕ} (hdigits : CodeUnit digits high)
    (hhigh : 0xd800 ≤ high ∧ high ≤ 0xdbff) (hmore : CodeUnit more low)
    (hlow : 0xdc00 ≤ low ∧ low ≤ 0xdfff) (rest : Text) :
    parseUnicode (digits ++ backslash :: letterU :: (more ++ rest)) =
      .ok (utf8 (0x10000 + (high - 0xd800) * 1024 + (low - 0xdc00)), rest) := by
  unfold parseUnicode
  rw [parseHex4_eq_ok_iff.mpr ⟨digits, hdigits, rfl⟩]
  simp only [bind, Except.bind]
  rw [if_pos ⟨hhigh.1, hhigh.2, rfl⟩]
  simp only [advance_cons]
  rw [parseHex4_eq_ok_iff.mpr ⟨more, hmore, rfl⟩]
  dsimp only
  rw [if_neg (by omega), Nat.shiftLeft_eq, pairUtf8_eq (by omega) (by omega)]

/-- What an escape reads continues the inside of a string. -/
theorem parseUnicode_sound (h : parseUnicode text = .ok (bytes, rest)) :
    ∃ escape, text = escape ++ rest ∧ ∀ chars decoded, Chars chars decoded →
      Chars (backslash :: letterU :: (escape ++ chars)) (bytes ++ decoded) := by
  unfold parseUnicode at h
  rw [bind_ok_iff] at h
  obtain ⟨⟨word, after⟩, hword, h⟩ := h
  obtain ⟨digits, hdigits, rfl⟩ := parseHex4_eq_ok_iff.mp hword
  dsimp only at h
  split_ifs at h with hpair hlone
  · obtain ⟨hlow, hhigh, hescape⟩ := hpair
    match after, hescape with
    | first :: second :: behind, hescape =>
      obtain ⟨hfirst, hsecond⟩ := (Bool.and_eq_true _ _).mp hescape
      obtain rfl := beq_iff_eq.mp hfirst
      obtain rfl := beq_iff_eq.mp hsecond
      replace h : (parseHex4 behind >>= fun found =>
          if found.1 < 0xdc00 ∨ 0xdfff < found.1 then .error (.refused "bad surrogate pair")
          else .ok (pairUtf8 (0x10000 + ((word - 0xd800) <<< 10) + (found.1 - 0xdc00)), found.2)) =
        Except.ok (bytes, rest) := h
      rw [bind_ok_iff] at h
      obtain ⟨⟨low, last⟩, hlow', h⟩ := h
      obtain ⟨more, hmore, rfl⟩ := parseHex4_eq_ok_iff.mp hlow'
      dsimp only at h
      split_ifs at h with hrange
      obtain ⟨rfl, rfl⟩ := Prod.mk.inj (Except.ok.inj h)
      refine ⟨digits ++ backslash :: letterU :: more, by simp, fun chars decoded hchars => ?_⟩
      rw [Nat.shiftLeft_eq, pairUtf8_eq (by omega) (by omega)]
      have hpair := Chars.pair hdigits hlow hhigh hmore (by omega) (by omega) hchars
      simpa using hpair
  · obtain ⟨rfl, rfl⟩ := Prod.mk.inj (Except.ok.inj h)
    refine ⟨digits, rfl, fun chars decoded hchars => ?_⟩
    rw [appendUtf8_eq (codeUnit_lt hdigits) hlone]
    exact Chars.unicode hdigits hlone hchars

theorem safe_parseUnicode (text : Text) : Safe (parseUnicode text) := by
  unfold parseUnicode
  refine (safe_parseHex4 text).bind fun word _ => ?_
  obtain ⟨word, after⟩ := word
  dsimp only
  split_ifs with hpair
  · match after, hpair.2.2 with
    | first :: second :: behind, _ =>
      refine (safe_parseHex4 behind).bind fun low _ => ?_
      split_ifs
      · exact safe_refused _
      · exact safe_ok _
  · exact safe_refused _
  · exact safe_ok _

theorem parseEscape_sound (h : parseEscape text = .ok (bytes, rest)) :
    ∃ escape, escape ≠ [] ∧ text = escape ++ rest ∧ ∀ chars decoded, Chars chars decoded →
      Chars (backslash :: (escape ++ chars)) (bytes ++ decoded) := by
  match text with
  | [] => cases h
  | esc :: after =>
    rw [parseEscape] at h
    cases hsimple : simpleEscape esc with
    | some byte =>
      rw [hsimple] at h
      obtain ⟨rfl, rfl⟩ := Prod.mk.inj (Except.ok.inj h)
      exact ⟨[esc], List.cons_ne_nil _ _, rfl, fun chars decoded hchars =>
        Chars.escape (simpleEscape_eq_some_iff.mp hsimple) hchars⟩
    | none =>
      rw [hsimple] at h
      dsimp only at h
      split_ifs at h with hletter
      obtain ⟨escape, rfl, hchars⟩ := parseUnicode_sound h
      exact ⟨esc :: escape, List.cons_ne_nil _ _, rfl, hletter ▸ hchars⟩

theorem safe_parseEscape (text : Text) : Safe (parseEscape text) := by
  match text with
  | [] => exact safe_refused _
  | esc :: rest =>
    rw [parseEscape]
    cases simpleEscape esc with
    | some byte => exact safe_ok _
    | none =>
      dsimp only
      split_ifs
      · exact safe_parseUnicode rest
      · exact safe_refused _

theorem stringLoop_quote (fuel : ℕ) (rest text : Text) :
    stringLoop (fuel + 1) (quote :: rest) text = .ok (text, rest) := by
  rw [stringLoop, if_pos rfl]

theorem stringLoop_escape {after : Text} (h : parseEscape rest = .ok (bytes, after)) (fuel : ℕ)
    (text : Text) : stringLoop (fuel + 1) (backslash :: rest) text =
      stringLoop fuel after (text ++ bytes) := by
  rw [stringLoop, if_neg (by decide), if_pos rfl, h]
  rfl

theorem stringLoop_plain {byte : UInt8} (hlow : 0x20 ≤ byte) (hquote : byte ≠ quote)
    (hslash : byte ≠ backslash) (fuel : ℕ) (rest text : Text) :
    stringLoop (fuel + 1) (byte :: rest) text = stringLoop fuel rest (text ++ [byte]) := by
  rw [stringLoop, if_neg hquote, if_neg hslash, if_neg (UInt8.not_lt.mpr hlow)]

/-- **The inside of a string is read to its closing quote.** -/
theorem stringLoop_complete {chars : Text} (h : Chars chars decoded) (rest text : Text) {fuel : ℕ}
    (hfuel : chars.length < fuel) :
    stringLoop fuel (chars ++ quote :: rest) text = .ok (text ++ decoded, rest) := by
  induction h generalizing text fuel with
  | nil =>
    obtain ⟨fuel, rfl⟩ := Nat.exists_eq_add_one_of_ne_zero (Nat.ne_zero_of_lt hfuel)
    rw [List.nil_append, stringLoop_quote, List.append_nil]
  | plain hlow hquote hslash hchars ih =>
    obtain ⟨fuel, rfl⟩ := Nat.exists_eq_add_one_of_ne_zero (Nat.ne_zero_of_lt hfuel)
    rw [List.length_cons] at hfuel
    rw [List.cons_append, stringLoop_plain hlow hquote hslash, ih _ (by omega), List.append_assoc,
      List.singleton_append]
  | @escape mark byte chars decoded hescape hchars ih =>
    obtain ⟨fuel, rfl⟩ := Nat.exists_eq_add_one_of_ne_zero (Nat.ne_zero_of_lt hfuel)
    have hparse : parseEscape (mark :: (chars ++ quote :: rest)) =
        .ok ([byte], chars ++ quote :: rest) := by
      rw [parseEscape, simpleEscape_eq_some_iff.mpr hescape]
    rw [List.length_cons, List.length_cons] at hfuel
    rw [List.cons_append, List.cons_append, stringLoop_escape hparse, ih _ (by omega),
      List.append_assoc, List.singleton_append]
  | @unicode digits unit chars decoded hdigits hunit hchars ih =>
    obtain ⟨fuel, rfl⟩ := Nat.exists_eq_add_one_of_ne_zero (Nat.ne_zero_of_lt hfuel)
    have hparse : parseEscape (letterU :: (digits ++ (chars ++ quote :: rest))) =
        .ok (utf8 unit, chars ++ quote :: rest) := parseUnicode_unicode hdigits hunit _
    rw [List.length_cons, List.length_cons, List.length_append] at hfuel
    rw [List.cons_append, List.cons_append, List.append_assoc, stringLoop_escape hparse,
      ih _ (by omega), List.append_assoc]
  | @pair digits high more low chars decoded hdigits hhigh hhigh' hmore hlow hlow' hchars ih =>
    obtain ⟨fuel, rfl⟩ := Nat.exists_eq_add_one_of_ne_zero (Nat.ne_zero_of_lt hfuel)
    have hparse : parseEscape (letterU :: (digits ++ backslash :: letterU ::
          (more ++ (chars ++ quote :: rest)))) =
        .ok (utf8 (0x10000 + (high - 0xd800) * 1024 + (low - 0xdc00)), chars ++ quote :: rest) :=
      parseUnicode_pair hdigits ⟨hhigh, hhigh'⟩ hmore ⟨hlow, hlow'⟩ _
    simp only [List.length_cons, List.length_append] at hfuel
    simp only [List.cons_append, List.append_assoc]
    rw [stringLoop_escape hparse, ih _ (by omega), List.append_assoc]

/-- **What the loop has read is the inside of a string.** -/
theorem stringLoop_sound {fuel : ℕ} (h : stringLoop fuel text bytes = .ok (decoded, rest)) :
    ∃ chars tail, text = chars ++ quote :: rest ∧ Chars chars tail ∧ decoded = bytes ++ tail := by
  induction fuel generalizing text bytes with
  | zero => cases h
  | succ fuel ih =>
    match text with
    | [] => cases h
    | ch :: after =>
      rw [stringLoop] at h
      split_ifs at h with hquote hslash hcontrol
      · obtain ⟨rfl, rfl⟩ := Prod.mk.inj (Except.ok.inj h)
        exact ⟨[], [], by rw [hquote]; rfl, Chars.nil, (List.append_nil _).symm⟩
      · rw [bind_ok_iff] at h
        obtain ⟨⟨escaped, behind⟩, hescape, h⟩ := h
        obtain ⟨escape, -, rfl, hescaped⟩ := parseEscape_sound hescape
        obtain ⟨chars, tail, rfl, hchars, rfl⟩ := ih h
        exact ⟨backslash :: (escape ++ chars), escaped ++ tail, by simp [hslash],
          hescaped chars tail hchars, List.append_assoc ..⟩
      · obtain ⟨chars, tail, rfl, hchars, rfl⟩ := ih h
        exact ⟨ch :: chars, ch :: tail, rfl,
          Chars.plain (UInt8.not_lt.mp hcontrol) hquote hslash hchars, by simp⟩

theorem safe_stringLoop {fuel : ℕ} (text : Text) (hfuel : text.length < fuel) (bytes : Text) :
    Safe (stringLoop fuel text bytes) := by
  induction fuel generalizing text bytes with
  | zero => exact absurd hfuel (Nat.not_lt_zero _)
  | succ fuel ih =>
    match text with
    | [] => exact safe_refused _
    | ch :: rest =>
      rw [List.length_cons] at hfuel
      rw [stringLoop]
      split_ifs
      · exact safe_ok _
      · refine (safe_parseEscape rest).bind fun found hfound => ?_
        obtain ⟨escape, hne, rfl, -⟩ := parseEscape_sound hfound
        rw [List.length_append] at hfuel
        exact ih _ (by omega) _
      · exact safe_refused _
      · exact ih _ (by omega) _

/-- `ParseString` reads a string. -/
theorem parseString_eq_ok_iff (hquote : startsWith quote text = true) :
    parseString text = .ok (decoded, rest) ↔
      ∃ token, IsString token decoded ∧ text = token ++ rest := by
  obtain ⟨after, rfl⟩ := startsWith_iff.mp hquote
  constructor
  · intro h
    have hloop : stringLoop (after.length + 1) after [] = .ok (decoded, rest) := h
    obtain ⟨chars, tail, rfl, hchars, rfl⟩ := stringLoop_sound hloop
    exact ⟨quote :: (chars ++ [quote]), ⟨chars, hchars, rfl⟩, by simp⟩
  · rintro ⟨token, ⟨chars, hchars, rfl⟩, htext⟩
    obtain rfl : after = chars ++ quote :: rest := by simpa using htext
    exact stringLoop_complete hchars rest [] (by simp)

theorem safe_parseString (hquote : startsWith quote text = true) : Safe (parseString text) := by
  obtain ⟨after, rfl⟩ := startsWith_iff.mp hquote
  exact safe_stringLoop after (Nat.lt_succ_self _) []

end Strings

section Numbers

variable {text rest digits : Text}

/-- A loop over digits goes as far as they do. -/
theorem skipDigits_append (h : ∀ byte ∈ digits, IsDigit byte)
    (hrest : ∀ ch ∈ rest.head?, ¬IsDigit ch) :
    skipDigits (digits ++ rest) = (rest, !digits.isEmpty) := by
  induction digits with
  | nil =>
    cases rest with
    | nil => rfl
    | cons ch after => exact if_neg (hrest ch rfl)
  | cons ch after ih =>
    rw [List.cons_append, skipDigits, ih fun byte hbyte => h byte (List.mem_cons_of_mem _ hbyte)]
    exact if_pos (h ch List.mem_cons_self)

theorem exists_digits (text : Text) :
    ∃ digits, (∀ byte ∈ digits, IsDigit byte) ∧ text = digits ++ (skipDigits text).1 ∧
      ∀ ch ∈ (skipDigits text).1.head?, ¬IsDigit ch := by
  induction text with
  | nil => exact ⟨[], fun _ h => absurd h List.not_mem_nil, rfl, nofun⟩
  | cons ch rest ih =>
    by_cases hch : IsDigit ch
    · obtain ⟨digits, hdigits, hrest, hhead⟩ := ih
      have hskip : skipDigits (ch :: rest) = ((skipDigits rest).1, true) := if_pos hch
      rw [hskip]
      refine ⟨ch :: digits, ?_, by rw [List.cons_append, ← hrest], hhead⟩
      intro byte hbyte
      obtain rfl | hbyte := List.mem_cons.mp hbyte
      · exact hch
      · exact hdigits byte hbyte
    · have hskip : skipDigits (ch :: rest) = (ch :: rest, false) := if_neg hch
      rw [hskip]
      refine ⟨[], fun _ h => absurd h List.not_mem_nil, rfl, ?_⟩
      rintro _ ⟨⟩
      exact hch

theorem someDigits_complete (h : Digits digits) (hrest : ∀ ch ∈ rest.head?, ¬IsDigit ch) :
    someDigits (digits ++ rest) = .ok rest := by
  unfold someDigits
  rw [skipDigits_append h.2 hrest]
  cases digits with
  | nil => exact absurd rfl h.1
  | cons ch after => rfl

theorem someDigits_sound (h : someDigits text = .ok rest) :
    ∃ digits, Digits digits ∧ text = digits ++ rest := by
  obtain ⟨digits, hdigits, htext, hhead⟩ := exists_digits text
  unfold someDigits at h
  split_ifs at h with hnone
  obtain rfl := Except.ok.inj h
  refine ⟨digits, ⟨?_, hdigits⟩, htext⟩
  rintro rfl
  have hskip := skipDigits_append hdigits hhead
  rw [← htext] at hskip
  exact hnone (congrArg Prod.snd hskip)

theorem safe_someDigits (text : Text) : Safe (someDigits text) := by
  unfold someDigits
  split_ifs
  · exact safe_refused _
  · exact safe_ok _

/-- Nothing that could go on with a number. -/
def Ends (rest : Text) : Prop :=
  ∀ ch ∈ rest.head?, ¬IsDigit ch ∧ ch ≠ point ∧ ch ≠ 0x65 ∧ ch ≠ 0x45

theorem not_isDigit_point : ¬IsDigit point := by unfold IsDigit; decide

theorem skipFraction_complete {fraction : Text} (h : Fraction fraction)
    (hrest : ∀ ch ∈ rest.head?, ¬IsDigit ch ∧ ch ≠ point) :
    skipFraction (fraction ++ rest) = .ok rest := by
  obtain rfl | ⟨digits, hdigits, rfl⟩ := h
  · cases rest with
    | nil => rfl
    | cons ch after => exact if_neg (hrest ch rfl).2
  · rw [List.cons_append, skipFraction, if_pos rfl]
    exact someDigits_complete hdigits fun ch hch => (hrest ch hch).1

theorem skipFraction_sound (h : skipFraction text = .ok rest) :
    ∃ fraction, Fraction fraction ∧ text = fraction ++ rest := by
  match text with
  | [] =>
    obtain rfl := Except.ok.inj h
    exact ⟨[], .inl rfl, rfl⟩
  | ch :: after =>
    rw [skipFraction] at h
    split_ifs at h with hpoint
    · obtain ⟨digits, hdigits, rfl⟩ := someDigits_sound h
      exact ⟨point :: digits, .inr ⟨digits, hdigits, rfl⟩, by rw [hpoint]; rfl⟩
    · obtain rfl := Except.ok.inj h
      exact ⟨[], .inl rfl, rfl⟩

theorem safe_skipFraction (text : Text) : Safe (skipFraction text) := by
  match text with
  | [] => exact safe_ok _
  | ch :: rest =>
    rw [skipFraction]
    split_ifs
    · exact safe_someDigits _
    · exact safe_ok _

theorem Digits.exists_cons (h : Digits digits) : ∃ ch after, digits = ch :: after ∧ IsDigit ch := by
  cases digits with
  | nil => exact absurd rfl h.1
  | cons ch after => exact ⟨ch, after, rfl, h.2 ch List.mem_cons_self⟩

theorem skipSign_complete {sign : Text} (hsign : sign = [] ∨ sign = [plus] ∨ sign = [minus])
    (h : Digits digits) (rest : Text) : skipSign (sign ++ (digits ++ rest)) = digits ++ rest := by
  obtain ⟨ch, after, rfl, hch⟩ := Digits.exists_cons h
  obtain rfl | rfl | rfl := hsign
  · refine if_neg ?_
    rintro (rfl | rfl)
    · exact absurd hch (by unfold IsDigit; decide)
    · exact absurd hch (by unfold IsDigit; decide)
  · rfl
  · rfl

theorem skipSign_sound (text : Text) :
    ∃ sign, (sign = [] ∨ sign = [plus] ∨ sign = [minus]) ∧ text = sign ++ skipSign text := by
  match text with
  | [] => exact ⟨[], .inl rfl, rfl⟩
  | ch :: after =>
    rw [skipSign]
    split_ifs with hsign
    · refine ⟨[ch], .inr ?_, rfl⟩
      exact hsign.imp (fun h => by rw [h]) fun h => by rw [h]
    · exact ⟨[], .inl rfl, rfl⟩

theorem skipExponent_complete {exponent : Text} (h : Exponent exponent) (hrest : Ends rest) :
    skipExponent (exponent ++ rest) = .ok rest := by
  obtain rfl | ⟨mark, sign, digits, hmark, hsign, hdigits, rfl⟩ := h
  · cases rest with
    | nil => rfl
    | cons ch after =>
      obtain ⟨-, -, hlower, hupper⟩ := hrest ch rfl
      exact if_neg (not_or.mpr ⟨hlower, hupper⟩)
  · rw [List.cons_append, skipExponent, if_pos hmark, List.append_assoc,
      skipSign_complete hsign hdigits]
    exact someDigits_complete hdigits fun ch hch => (hrest ch hch).1

theorem skipExponent_sound (h : skipExponent text = .ok rest) :
    ∃ exponent, Exponent exponent ∧ text = exponent ++ rest := by
  match text with
  | [] =>
    obtain rfl := Except.ok.inj h
    exact ⟨[], .inl rfl, rfl⟩
  | ch :: after =>
    rw [skipExponent] at h
    split_ifs at h with hmark
    · obtain ⟨sign, hsign, hafter⟩ := skipSign_sound after
      obtain ⟨digits, hdigits, hskip⟩ := someDigits_sound h
      refine ⟨ch :: (sign ++ digits), .inr ⟨ch, sign, digits, hmark, hsign, hdigits, rfl⟩, ?_⟩
      rw [List.cons_append, List.append_assoc, ← hskip, ← hafter]
    · obtain rfl := Except.ok.inj h
      exact ⟨[], .inl rfl, rfl⟩

theorem safe_skipExponent (text : Text) : Safe (skipExponent text) := by
  match text with
  | [] => exact safe_ok _
  | ch :: rest =>
    rw [skipExponent]
    split_ifs
    · exact safe_someDigits _
    · exact safe_ok _

/-- What comes behind the digits of a number does not go on with them. -/
theorem head_exponent {exponent : Text} (h : Exponent exponent) (hrest : Ends rest) :
    ∀ ch ∈ (exponent ++ rest).head?, ¬IsDigit ch ∧ ch ≠ point := by
  obtain rfl | ⟨mark, sign, digits, hmark, -, -, rfl⟩ := h
  · exact fun ch hch => ⟨(hrest ch hch).1, (hrest ch hch).2.1⟩
  · rintro _ ⟨⟩
    obtain rfl | rfl := hmark
    · exact ⟨by unfold IsDigit; decide, by decide⟩
    · exact ⟨by unfold IsDigit; decide, by decide⟩

theorem head_fraction {fraction : Text} (h : Fraction fraction)
    (hrest : ∀ ch ∈ rest.head?, ¬IsDigit ch ∧ ch ≠ point) :
    ∀ ch ∈ (fraction ++ rest).head?, ¬IsDigit ch := by
  obtain rfl | ⟨digits, -, rfl⟩ := h
  · exact fun ch hch => (hrest ch hch).1
  · rintro _ ⟨⟩
    exact not_isDigit_point

theorem skipMinus_complete {sign : Text} (hsign : sign = [] ∨ sign = [minus]) (h : Digits digits)
    (rest : Text) : skipMinus (sign ++ (digits ++ rest)) = digits ++ rest := by
  obtain ⟨ch, after, rfl, hch⟩ := Digits.exists_cons h
  obtain rfl | rfl := hsign
  · refine if_neg ?_
    rintro rfl
    exact absurd hch (by unfold IsDigit; decide)
  · rfl

theorem skipMinus_sound (text : Text) :
    ∃ sign, (sign = [] ∨ sign = [minus]) ∧ text = sign ++ skipMinus text := by
  match text with
  | [] => exact ⟨[], .inl rfl, rfl⟩
  | ch :: after =>
    rw [skipMinus]
    split_ifs with hsign
    · exact ⟨[ch], .inr (by rw [hsign]), rfl⟩
    · exact ⟨[], .inl rfl, rfl⟩

theorem take_of_append {token : Text} (h : text = token ++ rest) :
    text.take (text.length - rest.length) = token := by
  rw [h, List.length_append, Nat.add_sub_cancel, List.take_left]

/-- **A number is read to its end.** -/
theorem parseNumber_complete {token : Text} (h : IsNumber token) (hrest : Ends rest) :
    parseNumber (token ++ rest) = .ok (.number token, rest) := by
  obtain ⟨sign, digits, fraction, exponent, hsign, hdigits, hfraction, hexponent, rfl⟩ := h
  have hbehind := head_exponent hexponent hrest
  have hread : someDigits (skipMinus ((sign ++ (digits ++ (fraction ++ exponent))) ++ rest)) =
      .ok (fraction ++ (exponent ++ rest)) := by
    simp only [List.append_assoc]
    rw [skipMinus_complete hsign hdigits,
      someDigits_complete hdigits (head_fraction hfraction hbehind)]
  unfold parseNumber
  simp only [hread, skipFraction_complete hfraction hbehind, skipExponent_complete hexponent hrest,
    bind, Except.bind]
  rw [take_of_append rfl]

theorem parseNumber_sound {value : Value} (h : parseNumber text = .ok (value, rest)) :
    ∃ token, IsNumber token ∧ value = .number token ∧ text = token ++ rest := by
  unfold parseNumber at h
  rw [bind_ok_iff] at h
  obtain ⟨afterDigits, hreadDigits, h⟩ := h
  rw [bind_ok_iff] at h
  obtain ⟨afterFraction, hreadFraction, h⟩ := h
  rw [bind_ok_iff] at h
  obtain ⟨afterExponent, hreadExponent, h⟩ := h
  obtain ⟨rfl, rfl⟩ := Prod.mk.inj (Except.ok.inj h)
  obtain ⟨sign, hsign, htext⟩ := skipMinus_sound text
  obtain ⟨digits, hdigits, hrest⟩ := someDigits_sound hreadDigits
  obtain ⟨fraction, hfraction, rfl⟩ := skipFraction_sound hreadFraction
  obtain ⟨exponent, hexponent, rfl⟩ := skipExponent_sound hreadExponent
  have hsplit : text = (sign ++ (digits ++ (fraction ++ exponent))) ++ afterExponent := by
    rw [htext, hrest]
    simp only [List.append_assoc]
  exact ⟨_, ⟨sign, digits, fraction, exponent, hsign, hdigits, hfraction, hexponent, rfl⟩,
    by rw [take_of_append hsplit], hsplit⟩

theorem safe_parseNumber (text : Text) : Safe (parseNumber text) :=
  (safe_someDigits _).bind fun _ _ => (safe_skipFraction _).bind fun _ _ =>
    (safe_skipExponent _).bind fun _ _ => safe_ok _

end Numbers

end JsonParser
end Manifest
end ApfsAccess

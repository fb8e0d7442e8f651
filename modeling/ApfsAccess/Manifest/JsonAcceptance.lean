import ApfsAccess.Manifest.JsonTokens

/-!
# The manifest parser accepts exactly its grammar

The functions from `ParseValue` down call each other on less and less text.  What each of them does is
stated for one unit of fuel from what the others do with one less, and then follows for any fuel by
induction: what is accepted is a value of the grammar, a value of the grammar is accepted when there is
fuel for three steps a byte, and with so much fuel no text is read past its end.

* `parse_eq_ok_iff` : the texts that are accepted, and what they stand for.
* `safe_parse` : no text is read past its end, and the fuel is enough for every text.
-/

namespace ApfsAccess
namespace Manifest
namespace JsonParser

open Json Loops

section Heads

variable {token rest after : Text} {value : Value}

/-- How a number begins. -/
theorem IsNumber.head (h : IsNumber token) :
    ∃ ch tail, token = ch :: tail ∧ (ch = minus ∨ IsDigit ch) := by
  obtain ⟨sign, digits, fraction, exponent, hsign, hdigits, -, -, rfl⟩ := h
  obtain ⟨ch, tail, rfl, hch⟩ := Digits.exists_cons hdigits
  obtain rfl | rfl := hsign
  · exact ⟨ch, _, rfl, .inr hch⟩
  · exact ⟨minus, _, rfl, .inl rfl⟩

/-- Neither whitespace nor the bracket that closes an array. -/
def Begins (ch : UInt8) : Prop := ¬IsSpace ch ∧ ch ≠ closeBracket

instance (ch : UInt8) : Decidable (Begins ch) :=
  inferInstanceAs (Decidable (¬(ch = 0x20 ∨ ch = 0x09 ∨ ch = 0x0a ∨ ch = 0x0d) ∧ ch ≠ closeBracket))

theorem begins_of_isDigit {ch : UInt8} (h : IsDigit ch) : Begins ch := by
  unfold IsDigit at h
  constructor
  · rintro (rfl | rfl | rfl | rfl)
    all_goals exact absurd h (by decide)
  · rintro rfl
    exact absurd h (by decide)

/-- How a value begins. -/
theorem IsValue.head (h : IsValue token value) : ∃ ch tail, token = ch :: tail ∧ Begins ch := by
  cases h with
  | null => exact ⟨_, _, rfl, by decide⟩
  | true => exact ⟨_, _, rfl, by decide⟩
  | false => exact ⟨_, _, rfl, by decide⟩
  | number hnumber =>
    obtain ⟨ch, tail, rfl, rfl | hdigit⟩ := IsNumber.head hnumber
    · exact ⟨minus, tail, rfl, by decide⟩
    · exact ⟨ch, tail, rfl, begins_of_isDigit hdigit⟩
  | string hstring =>
    obtain ⟨chars, -, rfl⟩ := hstring
    exact ⟨_, _, rfl, by decide⟩
  | emptyArray => exact ⟨_, _, rfl, by decide⟩
  | array => exact ⟨_, _, rfl, by decide⟩
  | emptyObject => exact ⟨_, _, rfl, by decide⟩
  | object => exact ⟨_, _, rfl, by decide⟩

theorem IsValue.length_pos (h : IsValue token value) : 0 < token.length := by
  obtain ⟨ch, tail, rfl, -⟩ := IsValue.head h
  exact Nat.succ_pos _

theorem skipSpace_value (h : IsValue token value) (rest : Text) :
    skipSpace (token ++ rest) = token ++ rest := by
  obtain ⟨ch, tail, rfl, hch, -⟩ := IsValue.head h
  exact skipSpace_cons_of_not hch _

/-- Whitespace and what closes a value end a number. -/
theorem ends_of_space {ch : UInt8} (h : Space after)
    (hch : ch = comma ∨ ch = closeBracket ∨ ch = closeBrace) : Ends (after ++ ch :: rest) := by
  cases after with
  | nil =>
    rintro _ ⟨⟩
    unfold IsDigit
    obtain rfl | rfl | rfl := hch <;> decide
  | cons space spaces =>
    rintro _ ⟨⟩
    unfold IsDigit
    obtain rfl | rfl | rfl | rfl := h space List.mem_cons_self <;> decide

theorem ends_space (h : Space after) : Ends after := by
  cases after with
  | nil => exact nofun
  | cons space spaces =>
    rintro _ ⟨⟩
    unfold IsDigit
    obtain rfl | rfl | rfl | rfl := h space List.mem_cons_self <;> decide

end Heads

section Literals

variable {text rest : Text} {value : Value}

theorem parseBool_sound (h : parseBool text = .ok (value, rest)) :
    ∃ token, IsValue token value ∧ text = token ++ rest := by
  unfold parseBool at h
  split_ifs at h with htrue hfalse
  · obtain ⟨rfl, rfl⟩ := Prod.mk.inj (Except.ok.inj h)
    exact ⟨trueToken, .true, by rw [← htrue, List.take_append_drop]⟩
  · obtain ⟨rfl, rfl⟩ := Prod.mk.inj (Except.ok.inj h)
    exact ⟨falseToken, .false, by rw [← hfalse, List.take_append_drop]⟩

theorem parseNull_sound (h : parseNull text = .ok (value, rest)) :
    ∃ token, IsValue token value ∧ text = token ++ rest := by
  unfold parseNull at h
  split_ifs at h with hnull
  obtain ⟨rfl, rfl⟩ := Prod.mk.inj (Except.ok.inj h)
  exact ⟨nullToken, .null, by rw [← hnull, List.take_append_drop]⟩

theorem safe_parseBool (text : Text) : Safe (parseBool text) := by
  unfold parseBool
  split_ifs
  · exact safe_ok _
  · exact safe_ok _
  · exact safe_refused _

theorem safe_parseNull (text : Text) : Safe (parseNull text) := by
  unfold parseNull
  split_ifs
  · exact safe_ok _
  · exact safe_refused _

end Literals

/-! ## What is accepted is a value -/

/-- A parser accepts values only. -/
def ReadsValue (parser : Text → Except JsonError (Value × Text)) : Prop :=
  ∀ text value rest, parser text = .ok (value, rest) →
    ∃ token, IsValue token value ∧ text = token ++ rest

/-- The loop over an array goes on to its end. -/
def ReadsItems (loop : Text → List Value → Except JsonError (Value × Text)) : Prop :=
  ∀ text items value rest, loop text items = .ok (value, rest) →
    ∃ token values, Items token values ∧ text = token ++ closeBracket :: rest ∧
      value = .array (items ++ values)

/-- The loop over an object goes on to its end, with every key once. -/
def ReadsMembers (loop : Text → List (Text × Value) → Except JsonError (Value × Text)) : Prop :=
  ∀ text fields value rest, (fields.map Prod.fst).Nodup → loop text fields = .ok (value, rest) →
    ∃ token members, Members token members ∧ text = token ++ closeBrace :: rest ∧
      value = .object (fields ++ members) ∧ ((fields ++ members).map Prod.fst).Nodup

section Whitespace

theorem skipSpace_idem (text : Text) : skipSpace (skipSpace text) = skipSpace text := by
  induction text with
  | nil => rfl
  | cons ch rest ih =>
    by_cases hch : IsSpace ch
    · rw [skipSpace_cons_of_space hch, ih]
    · rw [skipSpace_cons_of_not hch, skipSpace_cons_of_not hch]

/-- The loops skip whitespace first, so that it makes no difference in front of them. -/
theorem arrayLoop_skipSpace (fuel : ℕ) (text : Text) (items : List Value) :
    arrayLoop fuel (skipSpace text) items = arrayLoop fuel text items := by
  cases fuel with
  | zero => rfl
  | succ fuel => rw [arrayLoop, arrayLoop, skipSpace_idem]

theorem objectLoop_skipSpace (fuel : ℕ) (text : Text) (fields : List (Text × Value)) :
    objectLoop fuel (skipSpace text) fields = objectLoop fuel text fields := by
  cases fuel with
  | zero => rfl
  | succ fuel => rw [objectLoop, objectLoop, skipSpace_idem]

/-- `ParseArray` at its bracket. -/
theorem parseArray_eq (fuel : ℕ) (tail : Text) :
    parseArray (fuel + 1) (openBracket :: tail) =
      if startsWith closeBracket (skipSpace tail) then
        advance (skipSpace tail) >>= fun rest => .ok (.array [], rest)
      else arrayLoop fuel tail [] := by
  rw [parseArray, ← arrayLoop_skipSpace]
  rfl

/-- `ParseObject` at its brace. -/
theorem parseObject_eq (fuel : ℕ) (tail : Text) :
    parseObject (fuel + 1) (openBrace :: tail) =
      if startsWith closeBrace (skipSpace tail) then
        advance (skipSpace tail) >>= fun rest => .ok (.object [], rest)
      else objectLoop fuel tail [] := by
  rw [parseObject, ← objectLoop_skipSpace]
  rfl

end Whitespace

section Soundness

variable {fuel : ℕ}

theorem readsItems_succ (hvalue : ReadsValue (parseValue fuel)) (hloop : ReadsItems (arrayLoop fuel)) :
    ReadsItems (arrayLoop (fuel + 1)) := by
  intro text items value rest h
  rw [arrayLoop, bind_ok_iff] at h
  obtain ⟨⟨item, behind⟩, hitem, h⟩ := h
  obtain ⟨before, hbefore, htext⟩ := exists_space text
  obtain ⟨token, htoken, hskip⟩ := hvalue _ _ _ hitem
  obtain ⟨after, hafter, hbehind⟩ := exists_space behind
  rw [hskip] at htext
  dsimp only at h
  cases hnext : skipSpace behind with
  | nil =>
    rw [hnext] at h
    cases h
  | cons ch next =>
    rw [hnext] at h hbehind
    dsimp only at h
    split_ifs at h with hcomma hclose
    · obtain ⟨more, values, hmore, rfl, rfl⟩ := hloop _ _ _ _ h
      refine ⟨before ++ (token ++ (after ++ comma :: more)), item :: values,
        .more hbefore htoken hafter hmore, ?_, by simp⟩
      rw [htext, hbehind, hcomma]
      simp
    · obtain ⟨rfl, rfl⟩ := Prod.mk.inj (Except.ok.inj h)
      refine ⟨before ++ (token ++ after), [item], .last hbefore htoken hafter, ?_, rfl⟩
      rw [htext, hbehind, hclose]
      simp

theorem readsMembers_succ (hvalue : ReadsValue (parseValue fuel))
    (hloop : ReadsMembers (objectLoop fuel)) : ReadsMembers (objectLoop (fuel + 1)) := by
  intro text fields value rest hnodup h
  rw [objectLoop] at h
  obtain ⟨before, hbefore, htext⟩ := exists_space text
  dsimp only at h
  split_ifs at h with hquote
  rw [bind_ok_iff] at h
  obtain ⟨⟨key, behindKey⟩, hkey, h⟩ := h
  rw [bind_ok_iff] at h
  obtain ⟨behindColon, hcolon, h⟩ := h
  rw [bind_ok_iff] at h
  obtain ⟨⟨member, behind⟩, hmember, h⟩ := h
  obtain ⟨name, hname, hskip⟩ :=
    (parseString_eq_ok_iff (Bool.eq_true_of_not_eq_false hquote)).mp hkey
  obtain ⟨between, hbetween, hbehindKey⟩ := exists_space behindKey
  rw [expect_eq_ok_iff.mp hcolon] at hbehindKey
  obtain ⟨lead, hlead, hbehindColon⟩ := exists_space behindColon
  obtain ⟨token, htoken, hbehindLead⟩ := hvalue _ _ _ hmember
  obtain ⟨after, hafter, hbehind⟩ := exists_space behind
  rw [hskip, hbehindKey, hbehindColon, hbehindLead] at htext
  dsimp only at h
  split_ifs at h with hduplicate
  have hnodup' : ((fields ++ [(key, member)]).map Prod.fst).Nodup := by
    rw [List.map_append, List.map_cons, List.map_nil, List.nodup_append]
    refine ⟨hnodup, List.nodup_singleton _, fun first hfirst second hsecond => ?_⟩
    rw [List.mem_singleton.mp hsecond]
    rintro rfl
    exact hduplicate hfirst
  cases hnext : skipSpace behind with
  | nil =>
    rw [hnext] at h
    cases h
  | cons ch next =>
    rw [hnext] at h hbehind
    dsimp only at h
    split_ifs at h with hcomma hclose
    · obtain ⟨more, members, hmore, rfl, rfl, hkeys⟩ := hloop _ _ _ _ hnodup' h
      refine ⟨_, (key, member) :: members,
        .more hbefore hname hbetween hlead htoken hafter hmore, ?_, by simp, ?_⟩
      · rw [htext, hbehind, hcomma]
        simp
      · simpa using hkeys
    · obtain ⟨rfl, rfl⟩ := Prod.mk.inj (Except.ok.inj h)
      refine ⟨_, [(key, member)], .last hbefore hname hbetween hlead htoken hafter, ?_, rfl, hnodup'⟩
      rw [htext, hbehind, hclose]
      simp

theorem parseArray_sound (hloop : ReadsItems (arrayLoop fuel)) {tail rest : Text} {value : Value}
    (h : parseArray (fuel + 1) (openBracket :: tail) = .ok (value, rest)) :
    ∃ token, IsValue token value ∧ openBracket :: tail = token ++ rest := by
  obtain ⟨space, hspace, htail⟩ := exists_space tail
  rw [parseArray_eq] at h
  split_ifs at h with hclose
  · obtain ⟨behind, hbehind⟩ := startsWith_iff.mp hclose
    rw [hbehind] at h htail
    obtain ⟨rfl, rfl⟩ := Prod.mk.inj (Except.ok.inj h)
    exact ⟨_, .emptyArray hspace, by rw [htail]; simp⟩
  · obtain ⟨token, values, hitems, rfl, rfl⟩ := hloop _ _ _ _ h
    exact ⟨_, .array hitems, by simp⟩

theorem parseObject_sound (hloop : ReadsMembers (objectLoop fuel)) {tail rest : Text} {value : Value}
    (h : parseObject (fuel + 1) (openBrace :: tail) = .ok (value, rest)) :
    ∃ token, IsValue token value ∧ openBrace :: tail = token ++ rest := by
  obtain ⟨space, hspace, htail⟩ := exists_space tail
  rw [parseObject_eq] at h
  split_ifs at h with hclose
  · obtain ⟨behind, hbehind⟩ := startsWith_iff.mp hclose
    rw [hbehind] at h htail
    obtain ⟨rfl, rfl⟩ := Prod.mk.inj (Except.ok.inj h)
    exact ⟨_, .emptyObject hspace, by rw [htail]; simp⟩
  · obtain ⟨token, members, hmembers, rfl, rfl, hkeys⟩ := hloop tail [] value rest (by simp) h
    exact ⟨_, .object hmembers hkeys, by simp⟩

/-- `ParseValue` accepts values only, when the loops it starts do. -/
theorem readsValue_succ
    (harray : ∀ tail rest value, parseArray fuel (openBracket :: tail) = .ok (value, rest) →
      ∃ token, IsValue token value ∧ openBracket :: tail = token ++ rest)
    (hobject : ∀ tail rest value, parseObject fuel (openBrace :: tail) = .ok (value, rest) →
      ∃ token, IsValue token value ∧ openBrace :: tail = token ++ rest) :
    ReadsValue (parseValue (fuel + 1)) := by
  intro text value rest h
  match text with
  | [] => cases h
  | ch :: tail =>
    rw [parseValue] at h
    split_ifs at h with hbrace hbracket hquote hbool hnull hnumber
    · obtain rfl := hbrace
      exact hobject tail rest value h
    · obtain rfl := hbracket
      exact harray tail rest value h
    · rw [bind_ok_iff] at h
      obtain ⟨⟨decoded, behind⟩, hstring, h⟩ := h
      obtain ⟨rfl, rfl⟩ := Prod.mk.inj (Except.ok.inj h)
      obtain ⟨token, htoken, htext⟩ :=
        (parseString_eq_ok_iff (startsWith_iff.mpr ⟨tail, by rw [hquote]⟩)).mp hstring
      exact ⟨token, .string htoken, htext⟩
    · exact parseBool_sound h
    · exact parseNull_sound h
    · obtain ⟨token, htoken, rfl, htext⟩ := parseNumber_sound h
      exact ⟨token, .number htoken, htext⟩

/-- **What is accepted is a value**, with any fuel. -/
theorem reads (fuel : ℕ) : ReadsValue (parseValue fuel) ∧ ReadsItems (arrayLoop fuel) ∧
    ReadsMembers (objectLoop fuel) ∧
    (∀ tail rest value, parseArray fuel (openBracket :: tail) = .ok (value, rest) →
      ∃ token, IsValue token value ∧ openBracket :: tail = token ++ rest) ∧
    ∀ tail rest value, parseObject fuel (openBrace :: tail) = .ok (value, rest) →
      ∃ token, IsValue token value ∧ openBrace :: tail = token ++ rest := by
  induction fuel with
  | zero => exact ⟨nofun, nofun, nofun, nofun, nofun⟩
  | succ fuel ih =>
    obtain ⟨hvalue, hitems, hmembers, harray, hobject⟩ := ih
    exact ⟨readsValue_succ harray hobject, readsItems_succ hvalue hitems,
      readsMembers_succ hvalue hmembers, fun _ _ _ => parseArray_sound hitems,
      fun _ _ _ => parseObject_sound hmembers⟩

end Soundness

/-! ## A value is accepted -/

section Completeness

variable {fuel : ℕ}

/-- With fuel for three steps a byte, a value is read to its end. -/
def TakesValue (fuel : ℕ) : Prop :=
  ∀ token value rest, IsValue token value → Ends rest → 3 * token.length ≤ fuel →
    parseValue fuel (token ++ rest) = .ok (value, rest)

def TakesItems (fuel : ℕ) : Prop :=
  ∀ token values rest items, Items token values → 3 * token.length + 1 ≤ fuel →
    arrayLoop fuel (token ++ closeBracket :: rest) items = .ok (.array (items ++ values), rest)

def TakesMembers (fuel : ℕ) : Prop :=
  ∀ token members rest fields, Members token members →
    ((fields ++ members).map Prod.fst).Nodup → 3 * token.length + 1 ≤ fuel →
    objectLoop fuel (token ++ closeBrace :: rest) fields = .ok (.object (fields ++ members), rest)

/-- One item, with whitespace around it and what comes behind. -/
theorem parseValue_spaced (hvalue : TakesValue fuel) {before token after : Text} {value : Value}
    {ch : UInt8} (hbefore : Space before) (htoken : IsValue token value) (hafter : Space after)
    (hch : ch = comma ∨ ch = closeBracket ∨ ch = closeBrace) (hfuel : 3 * token.length ≤ fuel)
    (rest : Text) :
    parseValue fuel (skipSpace (before ++ (token ++ (after ++ ch :: rest)))) =
      .ok (value, after ++ ch :: rest) := by
  rw [skipSpace_append hbefore, skipSpace_value htoken]
  exact hvalue _ _ _ htoken (ends_of_space hafter hch) hfuel

/-- Behind an item stands what closes it. -/
theorem skipSpace_close {after : Text} {ch : UInt8} (hafter : Space after)
    (hch : ch = comma ∨ ch = closeBracket ∨ ch = closeBrace) (rest : Text) :
    skipSpace (after ++ ch :: rest) = ch :: rest := by
  rw [skipSpace_append hafter, skipSpace_cons_of_not]
  unfold IsSpace
  obtain rfl | rfl | rfl := hch <;> decide

/-- One item, up to what comes behind it. -/
theorem arrayLoop_item (hvalue : TakesValue fuel) {before token after : Text} {value : Value}
    {ch : UInt8} {items : List Value} (hbefore : Space before) (htoken : IsValue token value)
    (hafter : Space after) (hch : ch = comma ∨ ch = closeBracket ∨ ch = closeBrace)
    (hfuel : 3 * token.length ≤ fuel) (rest : Text) :
    arrayLoop (fuel + 1) (before ++ (token ++ (after ++ ch :: rest))) items =
      if ch = comma then arrayLoop fuel rest (items ++ [value])
      else if ch = closeBracket then .ok (.array (items ++ [value]), rest)
      else .error (.refused "expected ',' or ']'") := by
  rw [arrayLoop, parseValue_spaced hvalue hbefore htoken hafter hch hfuel]
  simp only [bind, Except.bind]
  rw [skipSpace_close hafter hch]

theorem takesItems_succ (hvalue : TakesValue fuel) (hloop : TakesItems fuel) :
    TakesItems (fuel + 1) := by
  intro text values rest items hitems hfuel
  cases hitems with
  | @last before token after value hbefore htoken hafter =>
    simp only [List.length_append] at hfuel
    simp only [List.append_assoc]
    rw [arrayLoop_item hvalue hbefore htoken hafter (.inr (.inl rfl)) (by omega),
      if_neg (by decide), if_pos rfl]
  | @more before token after value more values hbefore htoken hafter hmore =>
    simp only [List.length_append, List.length_cons] at hfuel
    simp only [List.append_assoc, List.cons_append]
    rw [arrayLoop_item hvalue hbefore htoken hafter (.inl rfl) (by omega), if_pos rfl,
      hloop _ _ _ _ hmore (by omega), List.append_assoc, List.singleton_append]

/-- One member, up to what comes behind its value. -/
theorem objectLoop_member (hvalue : TakesValue fuel)
    {before name key between lead token after : Text} {value : Value} {ch : UInt8}
    {fields : List (Text × Value)} (hbefore : Space before) (hname : IsString name key)
    (hbetween : Space between) (hlead : Space lead) (htoken : IsValue token value)
    (hafter : Space after) (hch : ch = comma ∨ ch = closeBracket ∨ ch = closeBrace)
    (hfuel : 3 * token.length ≤ fuel) (hkey : key ∉ fields.map Prod.fst) (rest : Text) :
    objectLoop (fuel + 1) (before ++ (name ++ (between ++ colon :: (lead ++ (token ++
        (after ++ ch :: rest)))))) fields =
      if ch = comma then objectLoop fuel rest (fields ++ [(key, value)])
      else if ch = closeBrace then .ok (.object (fields ++ [(key, value)]), rest)
      else .error (.refused "expected ',' or '\x7d'") := by
  obtain ⟨chars, hchars, rfl⟩ := hname
  have hskip : skipSpace (before ++ (quote :: (chars ++ [quote]) ++ (between ++ colon :: (lead ++
      (token ++ (after ++ ch :: rest)))))) = quote :: (chars ++ [quote]) ++ (between ++ colon ::
      (lead ++ (token ++ (after ++ ch :: rest)))) := by
    rw [skipSpace_append hbefore]
    exact skipSpace_cons_of_not (by unfold IsSpace; decide) _
  have hcolon : skipSpace (between ++ colon :: (lead ++ (token ++ (after ++ ch :: rest)))) =
      colon :: (lead ++ (token ++ (after ++ ch :: rest))) := by
    rw [skipSpace_append hbetween]
    exact skipSpace_cons_of_not (by unfold IsSpace; decide) _
  have hstring : parseString (quote :: (chars ++ [quote]) ++ (between ++ colon ::
      (lead ++ (token ++ (after ++ ch :: rest))))) =
      .ok (key, between ++ colon :: (lead ++ (token ++ (after ++ ch :: rest)))) :=
    (parseString_eq_ok_iff rfl).mpr ⟨_, ⟨chars, hchars, rfl⟩, rfl⟩
  rw [objectLoop]
  dsimp only
  rw [hskip, if_neg (by simp [startsWith]), hstring]
  simp only [bind, Except.bind, hcolon]
  rw [expect_eq_ok_iff.mpr rfl]
  dsimp only
  rw [parseValue_spaced hvalue hlead htoken hafter hch hfuel]
  dsimp only
  rw [if_neg hkey, skipSpace_close hafter hch]

theorem takesMembers_succ (hvalue : TakesValue fuel) (hloop : TakesMembers fuel) :
    TakesMembers (fuel + 1) := by
  intro text members rest fields hmembers hnodup hfuel
  have hfresh : ∀ key value more, members = (key, value) :: more → key ∉ fields.map Prod.fst := by
    rintro key value more rfl hkey
    rw [List.map_append, List.nodup_append] at hnodup
    exact hnodup.2.2 key hkey key (List.mem_cons_self ..) rfl
  cases hmembers with
  | @last before name key between lead token after value hbefore hname hbetween hlead htoken hafter =>
    simp only [List.length_append, List.length_cons] at hfuel
    simp only [List.append_assoc, List.cons_append]
    rw [objectLoop_member hvalue hbefore hname hbetween hlead htoken hafter (.inr (.inr rfl))
      (by omega) (hfresh _ _ _ rfl), if_neg (by decide), if_pos rfl]
  | @more before name key between lead token after value more members hbefore hname hbetween hlead
      htoken hafter hmore =>
    simp only [List.length_append, List.length_cons] at hfuel
    simp only [List.append_assoc, List.cons_append]
    rw [objectLoop_member hvalue hbefore hname hbetween hlead htoken hafter (.inl rfl)
      (by omega) (hfresh _ _ _ rfl), if_pos rfl,
      hloop _ _ _ _ hmore (by simpa using hnodup) (by omega), List.append_assoc,
      List.singleton_append]

/-- An array that has items does not begin with its closing bracket. -/
theorem not_startsWith_items {token rest : Text} {values : List Value} (h : Items token values) :
    startsWith closeBracket (skipSpace (token ++ rest)) = false := by
  obtain ⟨before, item, after, value, hbefore, hitem, rfl⟩ : ∃ before item after value,
      Space before ∧ IsValue item value ∧ token = before ++ (item ++ after) := by
    cases h with
    | last hbefore hitem => exact ⟨_, _, _, _, hbefore, hitem, rfl⟩
    | more hbefore hitem => exact ⟨_, _, _, _, hbefore, hitem, rfl⟩
  rw [List.append_assoc, List.append_assoc, skipSpace_append hbefore, skipSpace_value hitem]
  obtain ⟨ch, tail, rfl, -, hch⟩ := IsValue.head hitem
  exact beq_eq_false_iff_ne.mpr hch

/-- An object that has members begins with a quote. -/
theorem not_startsWith_members {token rest : Text} {members : List (Text × Value)}
    (h : Members token members) : startsWith closeBrace (skipSpace (token ++ rest)) = false := by
  obtain ⟨before, after, hbefore, rfl⟩ : ∃ before after, Space before ∧
      token = before ++ quote :: after := by
    cases h with
    | last hbefore hname =>
      obtain ⟨chars, -, rfl⟩ := hname
      exact ⟨_, _, hbefore, rfl⟩
    | more hbefore hname =>
      obtain ⟨chars, -, rfl⟩ := hname
      exact ⟨_, _, hbefore, rfl⟩
  rw [List.append_assoc, skipSpace_append hbefore, List.cons_append,
    skipSpace_cons_of_not (by unfold IsSpace; decide)]
  rfl

def TakesArray (fuel : ℕ) : Prop :=
  ∀ token values rest, IsValue token (.array values) → 3 * token.length ≤ fuel + 1 →
    parseArray fuel (token ++ rest) = .ok (.array values, rest)

def TakesObject (fuel : ℕ) : Prop :=
  ∀ token members rest, IsValue token (.object members) → 3 * token.length ≤ fuel + 1 →
    parseObject fuel (token ++ rest) = .ok (.object members, rest)

theorem takesArray_succ (hloop : TakesItems fuel) : TakesArray (fuel + 1) := by
  intro token values rest hvalue hfuel
  cases hvalue with
  | @emptyArray space hspace =>
    rw [List.cons_append, List.append_assoc, parseArray_eq, skipSpace_append hspace]
    rfl
  | @array text values hitems =>
    simp only [List.length_append, List.length_cons, List.length_nil] at hfuel
    rw [List.cons_append, List.append_assoc, parseArray_eq, not_startsWith_items hitems,
      if_neg Bool.false_ne_true]
    exact hloop text values rest [] hitems (by omega)

theorem takesObject_succ (hloop : TakesMembers fuel) : TakesObject (fuel + 1) := by
  intro token members rest hvalue hfuel
  cases hvalue with
  | @emptyObject space hspace =>
    rw [List.cons_append, List.append_assoc, parseObject_eq, skipSpace_append hspace]
    rfl
  | @object text members hmembers hnodup =>
    simp only [List.length_append, List.length_cons, List.length_nil] at hfuel
    rw [List.cons_append, List.append_assoc, parseObject_eq, not_startsWith_members hmembers,
      if_neg Bool.false_ne_true]
    exact hloop text members rest [] hmembers hnodup (by omega)

theorem parseValue_number {ch : UInt8} (h : ch = minus ∨ IsDigit ch) (rest : Text) :
    parseValue (fuel + 1) (ch :: rest) = parseNumber (ch :: rest) := by
  have hne : ∀ other : UInt8, ¬(other = minus ∨ (0x30 ≤ other ∧ other ≤ 0x39)) → ch ≠ other :=
    fun other hother heq => hother (heq ▸ h)
  rw [parseValue, if_neg (hne openBrace (by decide)), if_neg (hne openBracket (by decide)),
    if_neg (hne quote (by decide)),
    if_neg (not_or.mpr ⟨hne 0x74 (by decide), hne 0x66 (by decide)⟩), if_neg (hne 0x6e (by decide))]
  exact if_pos h

theorem takesValue_succ (harray : TakesArray fuel) (hobject : TakesObject fuel) :
    TakesValue (fuel + 1) := by
  intro token value rest hvalue hends hfuel
  cases hvalue with
  | null => rfl
  | true => rfl
  | false => rfl
  | number hnumber =>
    have hread := parseNumber_complete hnumber hends
    obtain ⟨ch, tail, rfl, hch⟩ := IsNumber.head hnumber
    rw [List.cons_append] at hread ⊢
    rw [parseValue_number hch, hread]
  | string hstring =>
    have hread : parseString (token ++ rest) = .ok (_, rest) := (parseString_eq_ok_iff (by
      obtain ⟨chars, -, rfl⟩ := hstring
      rfl)).mpr ⟨token, hstring, rfl⟩
    obtain ⟨chars, -, rfl⟩ := hstring
    rw [List.cons_append] at hread ⊢
    rw [parseValue, if_neg (by decide), if_neg (by decide), if_pos rfl, hread]
    rfl
  | emptyArray hspace => exact harray _ _ _ (.emptyArray hspace) hfuel
  | array hitems => exact harray _ _ _ (.array hitems) hfuel
  | emptyObject hspace => exact hobject _ _ _ (.emptyObject hspace) hfuel
  | object hmembers hnodup => exact hobject _ _ _ (.object hmembers hnodup) hfuel

/-- **A value is accepted**, with fuel for three steps a byte. -/
theorem takes (fuel : ℕ) : TakesValue fuel ∧ TakesItems fuel ∧ TakesMembers fuel ∧
    TakesArray fuel ∧ TakesObject fuel := by
  induction fuel with
  | zero =>
    have hempty : ∀ {token value}, IsValue token value → ¬3 * token.length ≤ 1 := fun hvalue hle => by
      have hpos := IsValue.length_pos hvalue
      omega
    exact ⟨fun _ _ _ hvalue _ hle => absurd (hle.trans (Nat.zero_le 1)) (hempty hvalue),
      fun _ _ _ _ _ hle => absurd hle (by omega), fun _ _ _ _ _ _ hle => absurd hle (by omega),
      fun _ _ _ hvalue hle => absurd hle (hempty hvalue),
      fun _ _ _ hvalue hle => absurd hle (hempty hvalue)⟩
  | succ fuel ih =>
    obtain ⟨hvalue, hitems, hmembers, harray, hobject⟩ := ih
    exact ⟨takesValue_succ harray hobject, takesItems_succ hvalue hitems,
      takesMembers_succ hvalue hmembers, takesArray_succ hitems, takesObject_succ hmembers⟩

end Completeness

/-! ## No text is read past its end -/

section Safety

variable {fuel : ℕ}

theorem safe_arrayLoop_succ (hvalue : ∀ text, 3 * text.length + 1 ≤ fuel → Safe (parseValue fuel text))
    (hloop : ∀ text items, 3 * text.length + 2 ≤ fuel → Safe (arrayLoop fuel text items))
    (text : Text) (items : List Value) (hfuel : 3 * text.length + 2 ≤ fuel + 1) :
    Safe (arrayLoop (fuel + 1) text items) := by
  have hskip := length_skipSpace_le text
  rw [arrayLoop]
  refine (hvalue _ (by omega)).bind fun item hitem => ?_
  obtain ⟨token, htoken, htext⟩ := (reads fuel).1 _ _ _ hitem
  have hpos := IsValue.length_pos htoken
  have hbehind := length_skipSpace_le item.2
  rw [htext, List.length_append] at hskip
  dsimp only
  cases hnext : skipSpace item.2 with
  | nil => exact safe_refused _
  | cons ch next =>
    rw [hnext, List.length_cons] at hbehind
    dsimp only
    split_ifs
    · exact hloop _ _ (by omega)
    · exact safe_ok _
    · exact safe_refused _

theorem safe_objectLoop_succ
    (hvalue : ∀ text, 3 * text.length + 1 ≤ fuel → Safe (parseValue fuel text))
    (hloop : ∀ text fields, 3 * text.length + 2 ≤ fuel → Safe (objectLoop fuel text fields))
    (text : Text) (fields : List (Text × Value)) (hfuel : 3 * text.length + 2 ≤ fuel + 1) :
    Safe (objectLoop (fuel + 1) text fields) := by
  have hskip := length_skipSpace_le text
  rw [objectLoop]
  dsimp only
  split_ifs with hquote
  · exact safe_refused _
  have hstring := Bool.eq_true_of_not_eq_false hquote
  refine (safe_parseString hstring).bind fun key hkey => ?_
  obtain ⟨name, -, hname⟩ := (parseString_eq_ok_iff hstring).mp hkey
  have hkeyBehind := length_skipSpace_le key.2
  rw [hname, List.length_append] at hskip
  refine (safe_expect _ _).bind fun behindColon hcolon => ?_
  rw [expect_eq_ok_iff.mp hcolon, List.length_cons] at hkeyBehind
  have hcolonBehind := length_skipSpace_le behindColon
  refine (hvalue _ (by omega)).bind fun member hmember => ?_
  obtain ⟨token, htoken, htext⟩ := (reads fuel).1 _ _ _ hmember
  have hbehind := length_skipSpace_le member.2
  rw [htext, List.length_append] at hcolonBehind
  split_ifs
  · exact safe_refused _
  cases hnext : skipSpace member.2 with
  | nil => exact safe_refused _
  | cons ch next =>
    rw [hnext, List.length_cons] at hbehind
    dsimp only
    split_ifs
    · exact hloop _ _ (by omega)
    · exact safe_ok _
    · exact safe_refused _

theorem safe_parseValue_succ
    (harray : ∀ tail, 3 * tail.length + 3 ≤ fuel → Safe (parseArray fuel (openBracket :: tail)))
    (hobject : ∀ tail, 3 * tail.length + 3 ≤ fuel → Safe (parseObject fuel (openBrace :: tail)))
    (text : Text) (hfuel : 3 * text.length + 1 ≤ fuel + 1) : Safe (parseValue (fuel + 1) text) := by
  match text with
  | [] => exact safe_refused _
  | ch :: tail =>
    rw [List.length_cons] at hfuel
    rw [parseValue]
    split_ifs with hbrace hbracket hquote
    · exact hbrace ▸ hobject tail (by omega)
    · exact hbracket ▸ harray tail (by omega)
    · exact (safe_parseString (startsWith_iff.mpr ⟨tail, by rw [hquote]⟩)).bind fun _ _ => safe_ok _
    · exact safe_parseBool _
    · exact safe_parseNull _
    · exact safe_parseNumber _
    · exact safe_refused _

theorem safe_parseArray_succ
    (hloop : ∀ text items, 3 * text.length + 2 ≤ fuel → Safe (arrayLoop fuel text items))
    (tail : Text) (hfuel : 3 * tail.length + 3 ≤ fuel + 1) :
    Safe (parseArray (fuel + 1) (openBracket :: tail)) := by
  rw [parseArray_eq]
  split_ifs with hclose
  · obtain ⟨behind, hbehind⟩ := startsWith_iff.mp hclose
    rw [hbehind]
    exact safe_ok _
  · exact hloop _ _ (by omega)

theorem safe_parseObject_succ
    (hloop : ∀ text fields, 3 * text.length + 2 ≤ fuel → Safe (objectLoop fuel text fields))
    (tail : Text) (hfuel : 3 * tail.length + 3 ≤ fuel + 1) :
    Safe (parseObject (fuel + 1) (openBrace :: tail)) := by
  rw [parseObject_eq]
  split_ifs with hclose
  · obtain ⟨behind, hbehind⟩ := startsWith_iff.mp hclose
    rw [hbehind]
    exact safe_ok _
  · exact hloop _ _ (by omega)

/-- **Nothing is read past the end**, and the fuel is enough. -/
theorem safe_of_fuel (fuel : ℕ) : (∀ text, 3 * text.length + 1 ≤ fuel → Safe (parseValue fuel text)) ∧
    (∀ text items, 3 * text.length + 2 ≤ fuel → Safe (arrayLoop fuel text items)) ∧
    (∀ text fields, 3 * text.length + 2 ≤ fuel → Safe (objectLoop fuel text fields)) ∧
    (∀ tail, 3 * tail.length + 3 ≤ fuel → Safe (parseArray fuel (openBracket :: tail))) ∧
    ∀ tail, 3 * tail.length + 3 ≤ fuel → Safe (parseObject fuel (openBrace :: tail)) := by
  induction fuel with
  | zero =>
    exact ⟨fun _ h => absurd h (by omega), fun _ _ h => absurd h (by omega),
      fun _ _ h => absurd h (by omega), fun _ h => absurd h (by omega),
      fun _ h => absurd h (by omega)⟩
  | succ fuel ih =>
    obtain ⟨hvalue, hitems, hmembers, harray, hobject⟩ := ih
    exact ⟨safe_parseValue_succ harray hobject, safe_arrayLoop_succ hvalue hitems,
      safe_objectLoop_succ hvalue hmembers, safe_parseArray_succ hitems,
      safe_parseObject_succ hmembers⟩

end Safety

section Texts

variable {text : Text} {value : Value}

theorem skipSpace_eq_nil_iff : skipSpace text = [] ↔ Space text := by
  constructor
  · intro h
    obtain ⟨space, hspace, htext⟩ := exists_space text
    rw [h, List.append_nil] at htext
    rwa [htext]
  · intro h
    have hskip := skipSpace_append h []
    rwa [List.append_nil] at hskip

/-- **The texts that are accepted**, and what they stand for. -/
theorem parse_eq_ok_iff : parse text = .ok value ↔ Valid text value := by
  unfold parse
  constructor
  · intro h
    rw [bind_ok_iff] at h
    obtain ⟨⟨read, behind⟩, hread, h⟩ := h
    dsimp only at h
    split_ifs at h with htrailing
    obtain rfl := Except.ok.inj h
    obtain ⟨before, hbefore, htext⟩ := exists_space text
    obtain ⟨token, htoken, hskip⟩ := (reads _).1 _ _ _ hread
    rw [hskip] at htext
    exact ⟨before, token, behind, hbefore, htoken, skipSpace_eq_nil_iff.mp (not_not.mp htrailing),
      htext⟩
  · rintro ⟨before, token, after, hbefore, htoken, hafter, rfl⟩
    have hread := (takes (3 * (before ++ (token ++ after)).length + 1)).1 token value after htoken
      (ends_space hafter) (by simp only [List.length_append]; omega)
    rw [skipSpace_append hbefore, skipSpace_value htoken, hread]
    simp only [bind, Except.bind]
    rw [if_neg (not_not.mpr (skipSpace_eq_nil_iff.mpr hafter))]

/-- **No text is read past its end**, and every text is done with. -/
theorem safe_parse (text : Text) : Safe (parse text) := by
  have hskip := length_skipSpace_le text
  unfold parse
  refine ((safe_of_fuel _).1 _ (by omega)).bind fun found _ => ?_
  dsimp only
  split_ifs
  · exact safe_refused _
  · exact safe_ok _

/-- **The manifest parser accepts exactly its grammar.**  It answers on every text without reading past
the end, and it accepts a text with a value just when the grammar gives the text that value. -/
theorem parse_accepts_grammar (text : Text) :
    (∀ value, parse text = .ok value ↔ Valid text value) ∧
      parse text ≠ .error .pastEnd ∧ parse text ≠ .error .outOfFuel :=
  ⟨fun _ => parse_eq_ok_iff, safe_parse text⟩

end Texts

end JsonParser
end Manifest
end ApfsAccess

/-
Module: PreActive.Python.JsonRoundTrip
Purpose: `json.loads` inverts `json.dumps` on JSON values in every style, so a stored text
  determines the value it was written from.
Trusted boundary: none
Main exports: loads_dumps, JsonObject.text, JsonObject.loads_text
-/
import PreActive.Python.Json

namespace PreActive.Python

/-! ### Strings -/

theorem hexValue_hexDigit : ∀ value < 16, hexValue (hexDigit value) = some value := by decide

/-- Four hexadecimal digits read back as the code they were written from. -/
theorem hexValue4_digits {code : Nat} (small : code < 65536) :
    hexValue4 (hexDigit (code / 4096 % 16)) (hexDigit (code / 256 % 16))
      (hexDigit (code / 16 % 16)) (hexDigit (code % 16)) = some code := by
  have h1 := hexValue_hexDigit (code / 4096 % 16) (by omega)
  have h2 := hexValue_hexDigit (code / 256 % 16) (by omega)
  have h3 := hexValue_hexDigit (code / 16 % 16) (by omega)
  have h4 := hexValue_hexDigit (code % 16) (by omega)
  simp only [hexValue4, h1, h2, h3, h4, Option.some.injEq]
  omega

/-- A character is never a surrogate. -/
theorem char_not_surrogate (c : Char) :
    c.toNat < 55296 ∨ (57344 ≤ c.toNat ∧ c.toNat < 1114112) := by
  have valid := c.valid
  simp only [UInt32.isValidChar, Nat.isValidChar] at valid
  have same : c.val.toNat = c.toNat := rfl
  omega

theorem readString_unicodeEscape {code : Nat} (small : code < 65536)
    (plain : code < 55296 ∨ 57344 ≤ code) (rest : List Char) :
    readString (unicodeEscape code ++ rest) =
      (readString rest).map fun found => (Char.ofNat code :: found.1, found.2) := by
  simp only [unicodeEscape, List.cons_append, List.nil_append]
  rw [readString, hexValue4_digits small]
  simp only [plain, if_true]

theorem readString_surrogates {code : Nat} (astral : code < 1048576) (rest : List Char) :
    readString (unicodeEscape (55296 + code / 1024) ++ unicodeEscape (56320 + code % 1024) ++
        rest) =
      (readString rest).map fun found => (Char.ofNat (65536 + code) :: found.1, found.2) := by
  have high : 55296 + code / 1024 < 56320 := by omega
  have low : 56320 + code % 1024 < 57344 := by omega
  have notPlain : ¬ (55296 + code / 1024 < 55296 ∨ 57344 ≤ 55296 + code / 1024) := by omega
  have whole : 65536 + (55296 + code / 1024 - 55296) * 1024 + (56320 + code % 1024 - 56320) =
      65536 + code := by omega
  simp only [unicodeEscape, List.cons_append, List.nil_append]
  rw [readString, hexValue4_digits (by omega)]
  simp only [notPlain, if_false]
  rw [hexValue4_digits (by omega)]
  simp only [high, low, whole, Nat.le_add_right, and_self, if_true]

/-- Reading undoes the escape of one character. -/
theorem readString_escapeChar (ensureAscii : Bool) (c : Char) (rest : List Char) :
    readString (escapeChar ensureAscii c ++ rest) =
      (readString rest).map fun found => (c :: found.1, found.2) := by
  have valid := char_not_surrogate c
  unfold escapeChar
  split
  · subst_vars; rfl
  split
  · subst_vars; rfl
  split
  · subst_vars; rfl
  split
  · subst_vars; rfl
  split
  · subst_vars; rfl
  split
  · rename_i backspace
    have eq : Char.ofNat 8 = c := by rw [← backspace, Char.ofNat_toNat]
    rw [← eq]; rfl
  split
  · rename_i formFeed
    have eq : Char.ofNat 12 = c := by rw [← formFeed, Char.ofNat_toNat]
    rw [← eq]; rfl
  split
  · split
    · rw [readString_unicodeEscape (by assumption) (by omega), Char.ofNat_toNat]
    · rw [readString_surrogates (by omega)]
      rw [show 65536 + (c.toNat - 65536) = c.toNat by omega, Char.ofNat_toNat]
  · rename_i notQuote notBackslash _ _ _ _ _ notControl
    have printable : ¬ (c = '\\' ∨ c.toNat < 32) := by
      simp only [not_or] at notControl ⊢
      exact ⟨notBackslash, notControl.1⟩
    rw [List.singleton_append, readString.eq_def]
    split <;> simp_all

/-- Reading undoes a string literal. -/
theorem readString_flatMap (ensureAscii : Bool) (text rest : List Char) :
    readString (text.flatMap (escapeChar ensureAscii) ++ '"' :: rest) = some (text, rest) := by
  induction text with
  | nil => rfl
  | cons c text ih =>
      rw [List.flatMap_cons, List.append_assoc, readString_escapeChar, ih]
      rfl

/-! ### Numbers -/

theorem isNumberChar_of_isDigit {c : Char} (digit : c.isDigit = true) :
    isNumberChar c = true := by
  simp [isNumberChar, digit]

theorem toDigits_isDigit {value : Nat} {c : Char} (member : c ∈ Nat.toDigits 10 value) :
    c.isDigit = true :=
  Nat.isDigit_of_mem_toDigits (by decide) (by decide) member

/-- The decimal digits of a positive number do not start with a zero. -/
theorem toDigits_head {value : Nat} (positive : 0 < value) :
    (Nat.toDigits 10 value).head? ≠ some '0' := by
  induction value using Nat.strong_induction_on with
  | _ value ih =>
      by_cases small : value < 10
      · rw [Nat.toDigits_of_lt_base small]
        have all : ∀ digit < 10, 0 < digit → [Nat.digitChar digit].head? ≠ some '0' := by decide
        exact all value small positive
      · rw [Nat.toDigits_of_base_le (by decide) (by omega)]
        have shorter := ih (value / 10) (by omega) (by omega)
        cases digits : Nat.toDigits 10 (value / 10) with
        | nil => exact absurd digits Nat.toDigits_ne_nil
        | cons c rest => simpa [digits] using shorter

theorem readNat_toDigits (value : Nat) : readNat (Nat.toDigits 10 value) = some value := by
  have digits : (Nat.toDigits 10 value).all Char.isDigit = true :=
    List.all_eq_true.2 fun c member => toDigits_isDigit member
  have head : Nat.toDigits 10 value = ['0'] ∨ (Nat.toDigits 10 value).head? ≠ some '0' := by
    rcases Nat.eq_zero_or_pos value with rfl | positive
    · exact .inl (Nat.toDigits_zero 10)
    · exact .inr (toDigits_head positive)
  rw [readNat, if_pos ⟨Nat.toDigits_ne_nil, digits, head⟩, Nat.ofDigitChars_ten_toDigits]

theorem writeInt_ne_nil (value : Int) : writeInt value ≠ [] := by
  unfold writeInt
  split
  · simp
  · exact Nat.toDigits_ne_nil

theorem writeInt_isNumberChar {value : Int} {c : Char} (member : c ∈ writeInt value) :
    isNumberChar c = true := by
  unfold writeInt at member
  split at member
  · rcases List.mem_cons.1 member with rfl | digit
    · decide
    · exact isNumberChar_of_isDigit (toDigits_isDigit digit)
  · exact isNumberChar_of_isDigit (toDigits_isDigit member)

theorem readInt_writeInt (value : Int) : readInt (writeInt value) = some value := by
  unfold writeInt
  split
  · rename_i negative
    simp only [readInt, readNat_toDigits, Option.map_some, Option.some.injEq]
    omega
  · rename_i nonneg
    cases digits : Nat.toDigits 10 value.natAbs with
    | nil => exact absurd digits Nat.toDigits_ne_nil
    | cons c rest =>
        have digit : c.isDigit = true := toDigits_isDigit (by rw [digits]; simp)
        have notMinus : c ≠ '-' := by rintro rfl; exact absurd digit (by decide)
        rw [readInt.eq_def]
        split
        · simp_all
        · rw [← digits, readNat_toDigits, Option.map_some, Option.some.injEq]
          omega

/-- An int is never spelled like a float. -/
theorem writeInt_not_float (value : Int) : isFloatRepr (writeInt value) = false := by
  have noMark : (writeInt value).any (fun c => c == '.' || c == 'e' || c == 'E') = false := by
    rw [List.any_eq_false]
    intro c member marked
    have digitOrMinus : c.isDigit = true ∨ c = '-' := by
      unfold writeInt at member
      split at member
      · rcases List.mem_cons.1 member with rfl | digit
        · exact .inr rfl
        · exact .inl (toDigits_isDigit digit)
      · exact .inl (toDigits_isDigit member)
    simp only [Bool.or_eq_true, beq_iff_eq] at marked
    rcases marked with (rfl | rfl) | rfl <;> rcases digitOrMinus with digit | minus <;>
      first | exact absurd digit (by decide) | exact absurd minus (by decide)
  simp [isFloatRepr, noMark]

/-- What follows a number in a JSON text cannot be mistaken for a part of it. -/
def Delimited (rest : List Char) : Prop := ∀ c ∈ rest.head?, isNumberChar c = false

theorem delimited_nil : Delimited [] := by simp [Delimited]

theorem delimited_cons {c : Char} {rest : List Char} (delimiter : isNumberChar c = false) :
    Delimited (c :: rest) := by
  simpa [Delimited] using delimiter

theorem takeWhile_token {token rest : List Char} (number : ∀ c ∈ token, isNumberChar c = true)
    (delimited : Delimited rest) : (token ++ rest).takeWhile isNumberChar = token := by
  rw [List.takeWhile_append_of_pos number]
  cases rest with
  | nil => simp
  | cons c rest => simp [delimited c (by simp)]

theorem dropWhile_token {token rest : List Char} (number : ∀ c ∈ token, isNumberChar c = true)
    (delimited : Delimited rest) : (token ++ rest).dropWhile isNumberChar = rest := by
  rw [List.dropWhile_append_of_pos number]
  cases rest with
  | nil => simp
  | cons c rest => simp [delimited c (by simp)]

/-- A text that starts like a number is read as one. -/
theorem readValue_number {token rest : List Char} {value : PyVal} (fuel : Nat)
    (nonempty : token ≠ []) (number : ∀ c ∈ token, isNumberChar c = true)
    (delimited : Delimited rest) (read : readNumber token = some value) :
    readValue (fuel + 1) (token ++ rest) = some (value, rest) := by
  obtain ⟨c, token', rfl⟩ := List.exists_cons_of_ne_nil nonempty
  have first : isNumberChar c = true := number c (by simp)
  have second : c = '-' → (token' ++ rest).head? ≠ some 'I' := by
    rintro rfl head
    cases token' with
    | nil => exact absurd read (by simp [readNumber, readInt, readNat, isFloatRepr])
    | cons e token' =>
        rw [List.cons_append, List.head?_cons, Option.some.injEq] at head
        exact absurd (number 'I' (by simp [head])) (by decide)
  have token := takeWhile_token number delimited
  have remaining := dropWhile_token number delimited
  rw [List.cons_append] at token remaining ⊢
  rw [readValue.eq_def]
  split
  · rename_i noFuel
    cases noFuel
  rename_i sameFuel
  cases sameFuel
  split
  case h_9 start =>
    rw [List.cons.injEq] at start
    exact absurd (by rw [start.2]; rfl) (second start.1)
  case h_10 =>
    rw [token, remaining, read]
    rfl
  all_goals
    rename_i start
    rw [List.cons.injEq] at start
    exact absurd first (by rw [start.1]; decide)

theorem readValue_writeInt (value : Int) {fuel : Nat} {rest : List Char} (fueled : 0 < fuel)
    (delimited : Delimited rest) :
    readValue fuel (writeInt value ++ rest) = some (.int value, rest) := by
  obtain ⟨fuel, rfl⟩ := Nat.exists_eq_succ_of_ne_zero (Nat.ne_of_gt fueled)
  refine readValue_number fuel (writeInt_ne_nil value)
    (fun c member => writeInt_isNumberChar member) delimited ?_
  simp [readNumber, writeInt_not_float, readInt_writeInt]

theorem readNumber_repr (repr : String) (spelled : isFloatRepr repr.toList = true) :
    readNumber repr.toList = some (.float (.finite repr spelled)) := by
  rw [readNumber, dif_pos spelled]
  simp only [String.ofList_toList]

theorem readValue_writeFloat (value : PyFloat) {fuel : Nat} {rest : List Char}
    (fueled : 0 < fuel) (delimited : Delimited rest) :
    readValue fuel (writeFloat value ++ rest) = some (.float value, rest) := by
  obtain ⟨fuel, rfl⟩ := Nat.exists_eq_succ_of_ne_zero (Nat.ne_of_gt fueled)
  cases value with
  | finite repr spelled =>
      have number : repr.toList.all isNumberChar = true := by
        simp only [isFloatRepr, Bool.and_eq_true] at spelled
        exact spelled.1.1
      have nonempty : repr.toList ≠ [] := by
        intro empty
        rw [empty] at spelled
        exact absurd spelled (by decide)
      exact readValue_number fuel nonempty (List.all_eq_true.1 number) delimited
        (readNumber_repr repr spelled)
  | infinity negative => cases negative <;> rfl
  | nan => rfl

/-! ### Values -/

/-- The text of a value starts with neither a space nor a closing bracket. -/
def StartsValue (text : List Char) : Prop :=
  ∃ c rest, text = c :: rest ∧ isJsonSpace c = false ∧ c ≠ ']' ∧ c ≠ '}'

theorem startsValue_number {text : List Char} (nonempty : text ≠ [])
    (number : ∀ c ∈ text, isNumberChar c = true) : StartsValue text := by
  obtain ⟨c, rest, rfl⟩ := List.exists_cons_of_ne_nil nonempty
  have first : isNumberChar c = true := number c (by simp)
  refine ⟨c, rest, rfl, ?_, ?_, ?_⟩
  · by_contra space
    simp only [isJsonSpace, Bool.not_eq_false, Bool.or_eq_true, beq_iff_eq] at space
    rcases space with ((rfl | rfl) | rfl) | rfl <;> exact absurd first (by decide)
  · rintro rfl; exact absurd first (by decide)
  · rintro rfl; exact absurd first (by decide)

/-- Skipping spaces stops at a value. -/
theorem dropSpaces_value {text : List Char} (starts : StartsValue text) (rest : List Char) :
    (text ++ rest).dropWhile isJsonSpace = text ++ rest := by
  obtain ⟨c, text, rfl, visible, _⟩ := starts
  simp [visible]

theorem dropSpaces_gap (style : JsonStyle) {text : List Char} (starts : StartsValue text)
    (rest : List Char) :
    (style.gap ++ (text ++ rest)).dropWhile isJsonSpace = text ++ rest := by
  unfold JsonStyle.gap
  split
  · rw [List.singleton_append, List.dropWhile_cons, if_pos (by decide), dropSpaces_value starts]
  · rw [List.nil_append, dropSpaces_value starts]

/-- Reading undoes writing: what `readValue` owes to the text of a value. -/
def ReadsBack (text : List Char) (value : PyVal) : Prop :=
  StartsValue text ∧ ∀ fuel rest, text.length < fuel → Delimited rest →
    readValue fuel (text ++ rest) = some (value, rest)

/-- What `readItems` owes to the texts of the elements of an array. -/
def ItemsReadBack (style : JsonStyle) : List (List Char) → List PyVal → Prop
  | [], items => items = []
  | text :: texts, items =>
      StartsValue text ∧ ∀ fuel rest,
        (text ++ writeRest style ']' texts).length < fuel →
          readItems fuel (text ++ writeRest style ']' texts ++ rest) =
            some (items, rest)

/-- What `readMembers` owes to the texts of the members of an object. -/
def MembersReadBack (style : JsonStyle) : List (List Char) → List (String × PyVal) → Prop
  | [], members => members = []
  | text :: texts, members =>
      (∃ rest, text = '"' :: rest) ∧ ∀ fuel rest,
        (text ++ writeRest style '}' texts).length < fuel →
          readMembers fuel (text ++ writeRest style '}' texts ++ rest) =
            some (members, rest)

theorem itemsReadBack_cons {style : JsonStyle} {text : List Char} {texts : List (List Char)}
    {item : PyVal} {items : List PyVal} (first : ReadsBack text item)
    (others : ItemsReadBack style texts items) :
    ItemsReadBack style (text :: texts) (item :: items) := by
  obtain ⟨starts, reads⟩ := first
  refine ⟨starts, fun fuel rest fueled => ?_⟩
  cases fuel with
  | zero => omega
  | succ fuel =>
      cases texts with
      | nil =>
          obtain rfl : items = [] := others
          simp only [writeRest, List.length_append, List.length_singleton] at fueled
          have read := reads fuel (']' :: rest) (by omega) (delimited_cons (by decide))
          rw [writeRest, List.append_assoc, List.singleton_append, readItems, read]
          rfl
      | cons next texts =>
          obtain ⟨nextStarts, readRest⟩ := others
          simp only [writeRest, List.length_append, List.length_cons]
            at fueled
          have read := reads fuel
            (',' :: (style.gap ++ (next ++ writeRest style ']' texts ++ rest)))
            (by omega) (delimited_cons (by decide))
          have remaining := readRest fuel rest (by simp only [List.length_append]; omega)
          have shape : text ++ writeRest style ']' (next :: texts) ++ rest =
              text ++ (',' :: (style.gap ++
                (next ++ writeRest style ']' texts ++ rest))) := by
            simp [writeRest]
          rw [shape, readItems, read]
          simp only [List.dropWhile_cons, show isJsonSpace ',' = false by decide,
            Bool.false_eq_true, if_false]
          rw [List.append_assoc, dropSpaces_gap style nextStarts, ← List.append_assoc, remaining]
          rfl

/-- A string literal starts a member and reads back as its name. -/
theorem readString_writeString (style : JsonStyle) (text : String) (rest : List Char) :
    ∃ body, writeString style text ++ rest = '"' :: body ∧
      readString body = some (text.toList, rest) :=
  ⟨text.toList.flatMap (escapeChar style.ensureAscii) ++ '"' :: rest,
    by simp [writeString], readString_flatMap _ _ _⟩

theorem membersReadBack_cons {style : JsonStyle} {name : String} {text : List Char}
    {texts : List (List Char)} {value : PyVal} {members : List (String × PyVal)}
    (first : ReadsBack text value) (others : MembersReadBack style texts members) :
    MembersReadBack style (writeMember style (.str name, text) :: texts)
      ((name, value) :: members) := by
  obtain ⟨starts, reads⟩ := first
  refine ⟨⟨_, rfl⟩, fun fuel rest fueled => ?_⟩
  cases fuel with
  | zero => omega
  | succ fuel =>
      have colon : isJsonSpace ':' = false := by decide
      have comma : isJsonSpace ',' = false := by decide
      cases texts with
      | nil =>
          obtain rfl : members = [] := others
          simp only [writeMember, writeRest, List.length_append,
            List.length_cons] at fueled
          obtain ⟨body, opens, named⟩ := readString_writeString style name
            (':' :: (style.gap ++ (text ++ ('}' :: rest))))
          have read := reads fuel ('}' :: rest) (by omega) (delimited_cons (by decide))
          have shape : writeMember style (.str name, text) ++
              writeRest style '}' [] ++ rest = '"' :: body := by
            rw [← opens]
            simp [writeMember, writeRest, PyKey.memberName]
          rw [shape, readMembers]
          simp only [named, List.dropWhile_cons, colon]
          simp only [Bool.false_eq_true, if_false, dropSpaces_gap style starts, read]
          simp [isJsonSpace]
      | cons next texts =>
          obtain ⟨⟨nextRest, rfl⟩, readRest⟩ := others
          simp only [writeMember, writeRest, List.length_append,
            List.length_cons] at fueled
          have nextStarts : StartsValue ('"' :: nextRest) :=
            ⟨'"', nextRest, rfl, by decide, by decide, by decide⟩
          obtain ⟨body, opens, named⟩ := readString_writeString style name
            (':' :: (style.gap ++ (text ++ (',' :: (style.gap ++
              ('"' :: nextRest ++ writeRest style '}' texts ++ rest))))))
          have read := reads fuel
            (',' :: (style.gap ++
              ('"' :: nextRest ++ writeRest style '}' texts ++ rest)))
            (by omega) (delimited_cons (by decide))
          have remaining := readRest fuel rest
            (by simp only [List.length_append, List.length_cons]; omega)
          have shape : writeMember style (.str name, text) ++
              writeRest style '}' (('"' :: nextRest) :: texts) ++ rest =
                '"' :: body := by
            rw [← opens]
            simp [writeMember, writeRest, PyKey.memberName]
          rw [shape, readMembers]
          simp only [named, List.dropWhile_cons, colon]
          simp only [Bool.false_eq_true, if_false, dropSpaces_gap style starts, read]
          simp only [List.dropWhile_cons, comma, Bool.false_eq_true, if_false]
          rw [List.append_assoc, dropSpaces_gap style nextStarts, ← List.append_assoc, remaining]
          simp

/-! ### Dicts -/

/-- Keys are strings in ascending order. -/
def AscendingKeys {β : Type} (fields : List (PyKey × β)) : Prop :=
  (∀ field ∈ fields, field.1.isStr = true) ∧
    fields.Pairwise fun a b => a.1.text < b.1.text

theorem PyKey.str_text {key : PyKey} (isStr : key.isStr = true) : PyKey.str key.text = key := by
  cases key <;> first | rfl | cases isStr

theorem PyKey.memberName_text {key : PyKey} (isStr : key.isStr = true) :
    key.memberName = key.text := by
  cases key <;> first | rfl | cases isStr

/-- Sorting does nothing to fields that are already in order. -/
theorem sortFields_ascending {β : Type} {fields : List (PyKey × β)}
    (ascending : AscendingKeys fields) : sortFields fields = .ok fields := by
  have strings : fields.all (fun field => field.1.isStr) = true :=
    List.all_eq_true.2 ascending.1
  rw [sortFields, if_pos strings]
  exact congrArg Except.ok
    (List.Pairwise.insertionSort_eq (ascending.2.imp fun less => le_of_lt less))

theorem insertField_last {name : String} {value : PyVal} {fields : List (PyKey × PyVal)}
    (above : ∀ field ∈ fields, field.1.text < name) :
    insertField name value fields = fields ++ [(.str name, value)] := by
  induction fields with
  | nil => rfl
  | cons field fields ih =>
      obtain ⟨key, old⟩ := field
      have less : key.text < name := above (key, old) (by simp)
      rw [insertField, if_neg (ne_of_gt less), if_neg (lt_asymm less),
        ih fun field member => above field (by simp [member]), List.cons_append]

/-- Building a dict from members that arrive in order keeps them as they are. -/
theorem foldl_insertField {before fields : List (PyKey × PyVal)}
    (ascending : AscendingKeys (before ++ fields)) :
    (fields.map fun field => (field.1.text, field.2)).foldl
        (fun fields member => insertField member.1 member.2 fields) before = before ++ fields := by
  induction fields generalizing before with
  | nil => simp
  | cons field fields ih =>
      obtain ⟨strings, ordered⟩ := ascending
      have above : ∀ earlier ∈ before, earlier.1.text < field.1.text := by
        intro earlier member
        exact (List.pairwise_append.1 ordered).2.2 earlier member field (by simp)
      have isStr : field.1.isStr = true := strings field (by simp)
      have regroup : before ++ field :: fields = before ++ [field] ++ fields := by simp
      rw [List.map_cons, List.foldl_cons, insertField_last above, PyKey.str_text isStr, regroup]
      exact ih (regroup ▸ ⟨strings, ordered⟩)

theorem ofMembers_ascending {fields : List (PyKey × PyVal)} (ascending : AscendingKeys fields) :
    ofMembers (fields.map fun field => (field.1.text, field.2)) = .dict fields := by
  have ascending' : AscendingKeys ([] ++ fields) := by simpa using ascending
  rw [ofMembers, foldl_insertField ascending', List.nil_append]

/-! ### Values of every shape -/

theorem startsValue_string (style : JsonStyle) (text : String) :
    StartsValue (writeString style text) :=
  ⟨'"', _, rfl, by decide, by decide, by decide⟩

theorem readsBack_string (style : JsonStyle) (text : String) :
    ReadsBack (writeString style text) (.str text) := by
  refine ⟨startsValue_string style text, fun fuel rest fueled _ => ?_⟩
  cases fuel with
  | zero => omega
  | succ fuel =>
      obtain ⟨body, opens, read⟩ := readString_writeString style text rest
      rw [opens, readValue.eq_def]
      simp [read]

theorem readsBack_list {style : JsonStyle} {texts : List (List Char)} {items : List PyVal}
    (others : ItemsReadBack style texts items) :
    ReadsBack (writeSequence style '[' ']' texts) (.list items) := by
  cases texts with
  | nil =>
      obtain rfl : items = [] := others
      refine ⟨⟨'[', _, rfl, by decide, by decide, by decide⟩, fun fuel rest fueled _ => ?_⟩
      cases fuel with
      | zero => omega
      | succ fuel => rfl
  | cons text texts =>
      obtain ⟨starts, reads⟩ := others
      refine ⟨⟨'[', _, rfl, by decide, by decide, by decide⟩, fun fuel rest fueled _ => ?_⟩
      cases fuel with
      | zero => omega
      | succ fuel =>
          simp only [writeSequence, List.length_cons] at fueled
          have read := reads fuel rest (by omega)
          have skipped := dropSpaces_value starts (writeRest style ']' texts ++ rest)
          obtain ⟨c, text, rfl, _, notClose, _⟩ := starts
          rw [List.append_assoc] at read
          rw [writeSequence, List.cons_append, List.append_assoc, readValue.eq_def]
          simp only [skipped]
          split
          · rename_i closed
            rw [List.cons_append, List.cons.injEq] at closed
            exact absurd closed.1 notClose
          · rw [read]
            rfl

theorem readValue_brace (fuel : Nat) (rest : List Char) :
    readValue (fuel + 1) ('{' :: rest) =
      match rest.dropWhile isJsonSpace with
      | '}' :: rest => some (.dict [], rest)
      | rest => (readMembers fuel rest).map fun found => (ofMembers found.1, found.2) := rfl

/-- An object is read as the dict of its members. -/
theorem readsBack_members {style : JsonStyle} {members : List (String × PyVal)}
    {texts : List (List Char)} (others : MembersReadBack style texts members) :
    ReadsBack (writeSequence style '{' '}' texts) (ofMembers members) := by
  cases texts with
  | nil =>
      obtain rfl : members = [] := others
      refine ⟨⟨'{', _, rfl, by decide, by decide, by decide⟩, fun fuel rest fueled _ => ?_⟩
      cases fuel with
      | zero => omega
      | succ fuel => rfl
  | cons text texts =>
      obtain ⟨⟨body, rfl⟩, reads⟩ := others
      refine ⟨⟨'{', _, rfl, by decide, by decide, by decide⟩, fun fuel rest fueled _ => ?_⟩
      cases fuel with
      | zero => omega
      | succ fuel =>
          simp only [writeSequence, List.length_cons] at fueled
          have read := reads fuel rest (by omega)
          have starts : StartsValue ('"' :: body) :=
            ⟨'"', body, rfl, by decide, by decide, by decide⟩
          have skipped := dropSpaces_value starts (writeRest style '}' texts ++ rest)
          rw [List.append_assoc] at read
          rw [writeSequence, List.cons_append, List.append_assoc, readValue_brace, skipped]
          change Option.map _ (readMembers fuel ('"' :: body ++ (writeRest style '}' texts ++ rest))) =
            _
          rw [read, Option.map_some]

mutual

/-- Every JSON value has a text, and the text reads back as the value. -/
theorem write_readsBack (style : JsonStyle) : ∀ value : PyVal, isJson value = true →
    ∃ text, write style value = .ok text ∧ ReadsBack text value
  | .none, _ => by
      refine ⟨_, rfl, ⟨'n', _, rfl, by decide, by decide, by decide⟩, fun fuel rest fueled _ => ?_⟩
      cases fuel with
      | zero => omega
      | succ fuel => rfl
  | .bool true, _ => by
      refine ⟨_, rfl, ⟨'t', _, rfl, by decide, by decide, by decide⟩, fun fuel rest fueled _ => ?_⟩
      cases fuel with
      | zero => omega
      | succ fuel => rfl
  | .bool false, _ => by
      refine ⟨_, rfl, ⟨'f', _, rfl, by decide, by decide, by decide⟩, fun fuel rest fueled _ => ?_⟩
      cases fuel with
      | zero => omega
      | succ fuel => rfl
  | .int value, _ =>
      ⟨_, rfl,
        startsValue_number (writeInt_ne_nil value) (fun c => writeInt_isNumberChar),
        fun fuel rest fueled delimited =>
          readValue_writeInt value (by omega) delimited⟩
  | .float value, _ => by
      refine ⟨_, rfl, ?_, fun fuel rest fueled delimited =>
        readValue_writeFloat value (by omega) delimited⟩
      cases value with
      | finite repr spelled =>
          have number : repr.toList.all isNumberChar = true := by
            simp only [isFloatRepr, Bool.and_eq_true] at spelled
            exact spelled.1.1
          refine startsValue_number (fun empty => ?_) (List.all_eq_true.1 number)
          change repr.toList = [] at empty
          rw [empty] at spelled
          exact absurd spelled (by decide)
      | infinity negative =>
          cases negative
          · exact ⟨'I', _, rfl, by decide, by decide, by decide⟩
          · exact ⟨'-', _, rfl, by decide, by decide, by decide⟩
      | nan => exact ⟨'N', _, rfl, by decide, by decide, by decide⟩
  | .str text, _ => ⟨_, rfl, readsBack_string style text⟩
  | .list items, json => by
      obtain ⟨texts, written, others⟩ := writeItems_readsBack style items json
      refine ⟨_, ?_, readsBack_list others⟩
      rw [write, written]
  | .dict fields, json => by
      simp only [isJson, Bool.and_eq_true, decide_eq_true_eq, List.all_eq_true] at json
      obtain ⟨⟨strings, ordered⟩, values⟩ := json
      obtain ⟨texts, written, sameKeys, others⟩ := writeFields_readsBack style fields strings values
      have ascendingTexts : AscendingKeys texts := by
        have keys : texts.map (·.1.text) = fields.map (·.1.text) := by
          simpa [List.map_map, Function.comp_def] using congrArg (List.map PyKey.text) sameKeys
        refine ⟨fun field member => ?_, ?_⟩
        · have key : field.1 ∈ fields.map (·.1) := sameKeys ▸ List.mem_map_of_mem member
          obtain ⟨field', member', same⟩ := List.mem_map.1 key
          exact same ▸ strings field' member'
        · have sorted : (fields.map (·.1.text)).Pairwise (· < ·) := List.pairwise_map.2 ordered
          exact List.pairwise_map.1 (keys ▸ sorted)
      have reads := readsBack_members others
      rw [ofMembers_ascending ⟨strings, ordered⟩] at reads
      refine ⟨_, ?_, reads⟩
      rw [write, written]
      simp only [sortFields_ascending ascendingTexts]
  | .object _, json => by cases json

theorem writeItems_readsBack (style : JsonStyle) : ∀ items : List PyVal,
    isJsonItems items = true →
      ∃ texts, writeItems style items = .ok texts ∧ ItemsReadBack style texts items
  | [], _ => ⟨[], rfl, rfl⟩
  | item :: items, json => by
      simp only [isJsonItems, Bool.and_eq_true] at json
      obtain ⟨text, written, reads⟩ := write_readsBack style item json.1
      obtain ⟨texts, writtenRest, others⟩ := writeItems_readsBack style items json.2
      exact ⟨text :: texts, by rw [writeItems, written, writtenRest],
        itemsReadBack_cons reads others⟩

theorem writeFields_readsBack (style : JsonStyle) : ∀ fields : List (PyKey × PyVal),
    (∀ field ∈ fields, field.1.isStr = true) → isJsonFields fields = true →
      ∃ texts, writeFields style fields = .ok texts ∧
        texts.map (·.1) = fields.map (·.1) ∧
          MembersReadBack style (texts.map (writeMember style))
            (fields.map fun field => (field.1.text, field.2))
  | [], _, _ => ⟨[], rfl, rfl, rfl⟩
  | (key, value) :: fields, strings, json => by
      simp only [isJsonFields, Bool.and_eq_true] at json
      obtain ⟨text, written, reads⟩ := write_readsBack style value json.1
      obtain ⟨texts, writtenRest, sameKeys, others⟩ :=
        writeFields_readsBack style fields (fun field member => strings field (by simp [member]))
          json.2
      have isStr : key.isStr = true := strings (key, value) (by simp)
      refine ⟨(key, text) :: texts, by rw [writeFields, written, writtenRest],
        by simp [sameKeys], ?_⟩
      have first : MembersReadBack style (writeMember style (.str key.text, text) :: _) _ :=
        membersReadBack_cons reads others
      rw [PyKey.str_text isStr] at first
      exact first

end

/-! ### The codec -/

/-- A JSON value can be written, and its text reads back as the same value. -/
theorem loads_dumps (style : JsonStyle) {value : PyVal} (json : isJson value = true) :
    ∃ text, dumps style value = .ok text ∧ loads text = .ok value := by
  obtain ⟨text, written, starts, reads⟩ := write_readsBack style value json
  refine ⟨String.ofList text, by rw [dumps, written]; rfl, ?_⟩
  have read := reads (text.length + 1) [] (by omega) delimited_nil
  have visible := dropSpaces_value starts []
  rw [List.append_nil] at read visible
  rw [loads, String.toList_ofList, visible, read]
  rfl

namespace JsonObject

/-- The text of a JSON object, which always exists. -/
def text (style : JsonStyle) (object : JsonObject) : String :=
  (dumps style object.value).toOption.getD ""

theorem dumps_eq (style : JsonStyle) (object : JsonObject) :
    dumps style object.value = .ok (object.text style) := by
  obtain ⟨text, written, _⟩ := loads_dumps style object.isJson
  simp [JsonObject.text, written, Except.toOption]

theorem loads_text (style : JsonStyle) (object : JsonObject) :
    loads (object.text style) = .ok object.value := by
  obtain ⟨text, written, read⟩ := loads_dumps style object.isJson
  rw [dumps_eq, Except.ok.injEq] at written
  rw [written, read]

@[ext] theorem ext {object object' : JsonObject} (same : object.value = object'.value) :
    object = object' := by
  cases object; cases object'; cases same; rfl

theorem text_injective (style : JsonStyle) : Function.Injective (text style) := by
  intro object object' same
  have read := loads_text style object
  rw [same, loads_text, Except.ok.injEq] at read
  exact ext read.symm

@[simp] theorem ofVal?_value (object : JsonObject) : ofVal? object.value = some object := by
  rw [ofVal?, dif_pos ⟨object.isDict, object.isJson⟩]

end JsonObject

end PreActive.Python

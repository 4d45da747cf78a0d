/-
Module: PreActive.Bridge.Reading
Purpose: When the arguments of a native call are read, what they are, and when the reading ends in
  an exception that is no refusal.
Trusted boundary: none
Main exports: Converts, Breaks, Crashes, Readable, Escapes, readArguments_eq_ok,
  readArguments_escapes
-/
import PreActive.Bridge.Markup

namespace PreActive.Bridge

open PreActive.Foundation PreActive.Python

/-! ### Blank texts and markers -/

theorem Blank.pyStrip {text : List Char} (blank : Blank text) :
    pyStrip (String.ofList text) = "" := by
  have all : text.dropWhile isPySpace = [] := List.dropWhile_eq_nil_iff.2 blank
  rw [Python.pyStrip, String.toList_ofList, all]
  rfl

theorem pyStrip_eq_empty {text : List Char} :
    pyStrip (String.ofList text) = "" ↔ Blank text :=
  ⟨blank_of_pyStrip, Blank.pyStrip⟩

section Markers

variable {α : Type} {p : α → Bool} {mark : List α}

theorem infix_skip (visible : ∀ c ∈ mark, p c = false) (nonempty : mark ≠ []) :
    ∀ {gap text : List α}, (∀ c ∈ gap, p c = true) → (mark <:+: gap ++ text ↔ mark <:+: text)
  | [], text, _ => Iff.rfl
  | c :: gap, text, blank => by
      have later := @infix_skip visible nonempty gap text
        fun d member => blank d (List.mem_cons_of_mem c member)
      rw [List.cons_append, List.infix_cons_iff, later, or_iff_right]
      intro isPrefix
      obtain ⟨d, rest, rfl⟩ := List.exists_cons_of_ne_nil nonempty
      have shown := visible d List.mem_cons_self
      rw [(List.cons_prefix_cons.1 isPrefix).1, blank c List.mem_cons_self] at shown
      cases shown

theorem infix_skip_end (visible : ∀ c ∈ mark, p c = false) (nonempty : mark ≠ [])
    {text gap : List α} (blank : ∀ c ∈ gap, p c = true) :
    mark <:+: text ++ gap ↔ mark <:+: text := by
  rw [← List.reverse_infix, List.reverse_append, infix_skip (p := p), List.reverse_infix]
  · exact fun c member => visible c (List.mem_reverse.1 member)
  · exact fun empty => nonempty (List.reverse_eq_nil_iff.1 empty)
  · exact fun c member => blank c (List.mem_reverse.1 member)

end Markers

/-- The markers are no whitespace. -/
theorem toolMarkers_visible : ∀ marker ∈ toolMarkers,
    (∀ c ∈ marker.toList, isPySpace c = false) ∧ marker.toList ≠ [] := by
  have visible : ∀ marker ∈ toolMarkers,
      marker.toList.all (fun c => !isPySpace c) = true ∧ marker.toList ≠ [] := by decide
  intro marker member
  obtain ⟨all, nonempty⟩ := visible marker member
  rw [List.all_eq_true] at all
  exact ⟨fun c inside => by simpa using all c inside, nonempty⟩

theorem hasMarker_eq_false {text : List Char} :
    hasMarker text = false ↔ ∀ marker ∈ toolMarkers, ¬ marker.toList <:+: text := by
  simp [hasMarker]

/-- A part of a text without markers has none. -/
theorem hasMarker_of_infix {part text : List Char} (inside : part <:+: text)
    (none : hasMarker text = false) : hasMarker part = false := by
  rw [hasMarker_eq_false] at none ⊢
  exact fun marker member found => none marker member (found.trans inside)

/-- Stripping takes no marker away. -/
theorem hasMarker_pyStrip (text : List Char) :
    hasMarker (pyStrip (String.ofList text)).toList = hasMarker text := by
  have same : ∀ marker ∈ toolMarkers,
      (marker.toList <:+: (pyStrip (String.ofList text)).toList ↔ marker.toList <:+: text) := by
    intro marker member
    obtain ⟨visible, nonempty⟩ := toolMarkers_visible marker member
    have split := pyStrip_split (String.ofList text)
    rw [String.toList_ofList] at split
    conv_rhs => rw [split]
    rw [infix_skip_end visible nonempty fun c => isPySpace_of_mem_trailing,
      infix_skip visible nonempty fun c => isPySpace_of_mem_leading]
  rw [Bool.eq_iff_iff]
  simp only [hasMarker, List.any_eq_true, decide_eq_true_eq]
  exact exists_congr fun marker => and_congr_right fun member => same marker member

/-! ### The offered tools -/

theorem isToolProtocolError_mk (text : String) :
    isToolProtocolError (toolProtocolError text) = true := by
  simp [isToolProtocolError, toolProtocolError]

theorem functionSpecs_error {tools : List PyVal} {specs : List (String × PyVal)} {exc : Exc}
    (refused : functionSpecs specs tools = .error exc) : isToolProtocolError exc = true := by
  induction tools generalizing specs with
  | nil => cases refused
  | cons item rest ih =>
      rw [functionSpecs] at refused
      repeat' split at refused
      all_goals first
        | exact ih refused
        | (cases refused; exact isToolProtocolError_mk _)

theorem mapM_asStr? {items : List PyVal} {names : List String} :
    items.mapM PyVal.asStr? = some names ↔ items = names.map .str := by
  induction items generalizing names with
  | nil => cases names <;> simp
  | cons item items ih =>
      cases item <;> cases names <;>
        simp [List.mapM_cons, PyVal.asStr?, ih, Option.bind_eq_some_iff, and_comm]

theorem requiredNames_eq_ok {name : String} {schema : PyVal} {names : List String} :
    requiredNames name schema = .ok names ↔
      orDefault (schema.get? "required") (.list []) = .list (names.map .str) := by
  unfold requiredNames
  split
  · rename_i items isList
    rw [isList, PyVal.list.injEq, ← mapM_asStr?]
    cases items.mapM PyVal.asStr? <;> simp
  · rename_i notList
    constructor
    · nofun
    · exact fun isList => absurd isList (notList _)

theorem requiredNames_error {name : String} {schema : PyVal} {exc : Exc}
    (refused : requiredNames name schema = .error exc) : isToolProtocolError exc = true := by
  unfold requiredNames at refused
  repeat' split at refused
  all_goals cases refused
  all_goals exact isToolProtocolError_mk _

/-! ### The parameters -/

section Parameters

variable (interpreter : Interpreter) (schema properties : PyVal)

/-- A parameter element whose text has the value as its declared type. -/
def Converts (found : Found Char) (value : PyVal) : Prop :=
  ∃ declared, parameterSchema interpreter schema properties (parameterName found) = .ok declared ∧
    coerceParameter interpreter (parameterName found) (group found 2) declared = .ok value

/-- Inputs at which a conversion ends in an exception that is no refusal: a dict is declared as the
type, `int` refuses a text of digits, `float` or `json.loads` raise something else than the error
that is caught, or one of several declared types is reached and does so. -/
inductive Breaks (interpreter : Interpreter) (name : String) : String → PyVal → Prop where
  | unhashable (raw : String) (fields : List (PyKey × PyVal)) :
      Breaks interpreter name raw (.dict fields)
  | int {raw : String} {exc : Exc} (digits : isIntegerText interpreter (pyStrip raw).toList = true)
      (raised : interpreter.int (pyStrip raw) = .error exc)
      (foreign : isToolProtocolError exc = false) : Breaks interpreter name raw (.str "integer")
  | float {raw : String} {exc : Exc} (raised : interpreter.float (pyStrip raw) = .error exc)
      (uncaught : exc.isValueError = false) (foreign : isToolProtocolError exc = false) :
      Breaks interpreter name raw (.str "number")
  | json {raw declared : String} {exc : Exc} (parsed : declared = "object" ∨ declared = "array")
      (raised : interpreter.loads (pyStrip raw) = .error exc)
      (uncaught : isJsonDecodeError exc = false) (foreign : isToolProtocolError exc = false) :
      Breaks interpreter name raw (.str declared)
  | candidate {raw : String} {earlier later : List PyVal} {declared : PyVal}
      (refused : ∀ other ∈ earlier, ∃ exc,
        coerceDeclared interpreter name (pyStrip raw) other = .error exc ∧
          isToolProtocolError exc = true)
      (breaks : Breaks interpreter name (pyStrip raw) declared) :
      Breaks interpreter name raw (.list (earlier ++ declared :: later))

/-- A parameter element with a text that breaks the conversion to its declared type. -/
def Crashes (found : Found Char) : Prop :=
  ∃ declared, parameterSchema interpreter schema properties (parameterName found) = .ok declared ∧
    Breaks interpreter (parameterName found) (group found 2)
      ((declared.get? "type").getD (.str "string"))

variable {interpreter}

theorem coerceJson_breaks {name value declared : String} :
    (∃ exc, coerceJson interpreter name value declared = .error exc ∧
      isToolProtocolError exc = false) ↔
      ∃ exc, interpreter.loads value = .error exc ∧ isJsonDecodeError exc = false ∧
        isToolProtocolError exc = false := by
  unfold coerceJson
  cases loaded : interpreter.loads value with
  | error exc =>
      cases decode : isJsonDecodeError exc with
      | true => simp [isToolProtocolError_mk, decode]
      | false => simp [decode]
  | ok parsed =>
      simp only [reduceCtorEq, false_and, exists_false, iff_false]
      rintro ⟨exc, refused, foreign⟩
      repeat' split at refused
      all_goals cases refused
      all_goals exact absurd foreign (by rw [isToolProtocolError_mk]; exact Bool.noConfusion)

/-- One declared type. -/
theorem coerceAs_breaks {name raw : String} {declared : PyVal}
    (single : ∀ candidates, declared ≠ .list candidates) :
    (∃ exc, coerceAs interpreter name (pyStrip raw) declared = .error exc ∧
      isToolProtocolError exc = false) ↔ Breaks interpreter name raw declared := by
  constructor
  · rintro ⟨exc, refused, foreign⟩
    unfold coerceAs at refused
    split at refused
    · cases refused
    · split at refused
      · rename_i digits
        cases raised : interpreter.int (pyStrip raw) with
        | ok value =>
            rw [raised] at refused
            cases refused
        | error exc' =>
            rw [raised] at refused
            cases refused
            exact .int digits raised foreign
      · cases refused
        rw [isToolProtocolError_mk] at foreign
        cases foreign
    · split at refused
      · rename_i exc' raised
        split at refused
        · cases refused
          rw [isToolProtocolError_mk] at foreign
          cases foreign
        · rename_i uncaught
          cases refused
          exact .float raised (Bool.eq_false_iff.2 uncaught) foreign
      · split at refused
        · cases refused
        · cases refused
          rw [isToolProtocolError_mk] at foreign
          cases foreign
    · repeat' split at refused
      all_goals cases refused
      rw [isToolProtocolError_mk] at foreign
      cases foreign
    · repeat' split at refused
      all_goals cases refused
      rw [isToolProtocolError_mk] at foreign
      cases foreign
    · obtain ⟨exc', raised, uncaught, foreign'⟩ := coerceJson_breaks.1 ⟨exc, refused, foreign⟩
      exact .json (.inl rfl) raised uncaught foreign'
    · obtain ⟨exc', raised, uncaught, foreign'⟩ := coerceJson_breaks.1 ⟨exc, refused, foreign⟩
      exact .json (.inr rfl) raised uncaught foreign'
    · exact .unhashable raw _
    · cases refused
      rw [isToolProtocolError_mk] at foreign
      cases foreign
  · intro breaks
    cases breaks with
    | unhashable => exact ⟨_, rfl, rfl⟩
    | int digits raised foreign =>
        exact ⟨_, by rw [coerceAs, if_pos digits, raised]; rfl, foreign⟩
    | float raised uncaught foreign =>
        refine ⟨_, ?_, foreign⟩
        simp only [coerceAs, raised, uncaught, Bool.false_eq_true, if_false]
    | json parsed raised uncaught foreign =>
        rcases parsed with rfl | rfl
        · exact coerceJson_breaks.2 ⟨_, raised, uncaught, foreign⟩
        · exact coerceJson_breaks.2 ⟨_, raised, uncaught, foreign⟩
    | candidate => exact absurd rfl (single _)

mutual

/-- A conversion ends in an exception that is no refusal exactly at these inputs. -/
theorem coerceDeclared_breaks {name raw : String} : ∀ declared,
    (∃ exc, coerceDeclared interpreter name raw declared = .error exc ∧
      isToolProtocolError exc = false) ↔ Breaks interpreter name raw declared
  | .list candidates => by
      rw [coerceDeclared, coerceCandidates_breaks candidates]
      constructor
      · rintro ⟨earlier, declared, later, rfl, refused, breaks⟩
        exact .candidate refused breaks
      · intro breaks
        generalize isList : PyVal.list candidates = declared at breaks
        cases breaks with
        | candidate refused breaks =>
            cases isList
            exact ⟨_, _, _, rfl, refused, breaks⟩
        | _ => cases isList
  | .none | .bool _ | .int _ | .float _ | .str _ | .dict _ | .object _ => by
      simp only [coerceDeclared]
      exact coerceAs_breaks nofun

theorem coerceCandidates_breaks {name text : String} {errors : List String} : ∀ candidates,
    (∃ exc, coerceCandidates interpreter name text errors candidates = .error exc ∧
      isToolProtocolError exc = false) ↔
      ∃ earlier declared later, candidates = earlier ++ declared :: later ∧
        (∀ other ∈ earlier, ∃ exc, coerceDeclared interpreter name text other = .error exc ∧
          isToolProtocolError exc = true) ∧ Breaks interpreter name text declared
  | [] => by
      rw [coerceCandidates]
      constructor
      · rintro ⟨exc, ⟨⟩, foreign⟩
        rw [isToolProtocolError_mk] at foreign
        cases foreign
      · rintro ⟨earlier, declared, later, empty, _⟩
        simp at empty
  | candidate :: rest => by
      rw [coerceCandidates]
      have first := @coerceDeclared_breaks name text candidate
      cases isParsed : coerceDeclared interpreter name text candidate with
      | ok parsed =>
          constructor
          · rintro ⟨exc, ⟨⟩, _⟩
          · rintro ⟨_ | ⟨other, earlier⟩, declared, later, same, refused, breaks⟩
            · obtain ⟨rfl, rfl⟩ := List.cons.inj same
              obtain ⟨exc, isError, _⟩ := first.2 breaks
              cases isParsed.symm.trans isError
            · obtain ⟨rfl, rfl⟩ := List.cons.inj same
              obtain ⟨exc, isError, _⟩ := refused candidate List.mem_cons_self
              cases isParsed.symm.trans isError
      | error exc =>
          cases protocol : isToolProtocolError exc with
          | true =>
              simp only [protocol, if_true]
              rw [coerceCandidates_breaks rest]
              constructor
              · rintro ⟨earlier, declared, later, rfl, refused, breaks⟩
                exact ⟨candidate :: earlier, declared, later, rfl,
                  List.forall_mem_cons.2 ⟨⟨exc, isParsed, protocol⟩, refused⟩, breaks⟩
              · rintro ⟨_ | ⟨other, earlier⟩, declared, later, same, refused, breaks⟩
                · obtain ⟨rfl, rfl⟩ := List.cons.inj same
                  obtain ⟨exc', isError, foreign⟩ := first.2 breaks
                  obtain rfl := Except.error.inj (isParsed.symm.trans isError)
                  cases protocol.symm.trans foreign
                · obtain ⟨rfl, rfl⟩ := List.cons.inj same
                  exact ⟨earlier, declared, later, rfl,
                    fun other member => refused other (List.mem_cons_of_mem _ member), breaks⟩
          | false =>
              simp only [protocol, Bool.false_eq_true, if_false]
              exact iff_of_true ⟨exc, rfl, protocol⟩
                ⟨[], candidate, rest, rfl, nofun, first.1 ⟨exc, isParsed, protocol⟩⟩

end

theorem crashes_iff {schema properties : PyVal} {found : Found Char} :
    Crashes interpreter schema properties found ↔ ∃ declared exc,
      parameterSchema interpreter schema properties (parameterName found) = .ok declared ∧
        coerceParameter interpreter (parameterName found) (group found 2) declared = .error exc ∧
          isToolProtocolError exc = false := by
  refine exists_congr fun declared => ?_
  rw [← coerceDeclared_breaks, exists_and_left]
  rfl

variable {schema properties} {arguments : List (PyKey × PyVal)}

theorem parameterSchema_error {name : String} {exc : Exc}
    (refused : parameterSchema interpreter schema properties name = .error exc) :
    isToolProtocolError exc = true := by
  unfold parameterSchema at refused
  repeat' split at refused
  all_goals cases refused
  all_goals exact isToolProtocolError_mk _

/-- A parameter element that has a value. -/
theorem readParameters_converts {found : Found Char} {value : PyVal}
    (fresh : PyVal.lookup (.str (parameterName found)) arguments = none)
    (converts : Converts interpreter schema properties found value) (rest : List (Found Char)) :
    readParameters interpreter schema properties (found :: rest) arguments =
      readParameters interpreter schema properties rest
        (insertField (parameterName found) value arguments) := by
  have named : pyStrip (group found 1) = parameterName found := rfl
  obtain ⟨declared, isSchema, isValue⟩ := converts
  simp only [readParameters, named, fresh, Option.isSome_none, Bool.false_eq_true, if_false,
    isSchema, isValue, bind, Except.bind]

/-- A parameter element that has none. -/
theorem readParameters_refuses {found : Found Char}
    (noValue : ∀ value, ¬ Converts interpreter schema properties found value)
    (rest : List (Found Char)) :
    ∃ exc, readParameters interpreter schema properties (found :: rest) arguments = .error exc ∧
      (isToolProtocolError exc = false ↔
        PyVal.lookup (.str (parameterName found)) arguments = none ∧
          Crashes interpreter schema properties found) := by
  have named : pyStrip (group found 1) = parameterName found := rfl
  simp only [readParameters, named]
  cases repeated : PyVal.lookup (.str (parameterName found)) arguments with
  | some earlier => exact ⟨_, rfl, by simp [isToolProtocolError_mk]⟩
  | none =>
      simp only [Option.isSome_none, Bool.false_eq_true, if_false, true_and, crashes_iff]
      cases isSchema : parameterSchema interpreter schema properties (parameterName found) with
      | error exc => exact ⟨exc, rfl, by simp [parameterSchema_error isSchema]⟩
      | ok declared =>
          cases isValue : coerceParameter interpreter (parameterName found) (group found 2)
              declared with
          | ok value => exact absurd ⟨declared, isSchema, isValue⟩ (noValue value)
          | error exc => exact ⟨exc, by simp only [bind, Except.bind, isValue], by simp [isValue]⟩

/-- A parameter element with a name that is already there. -/
theorem readParameters_repeated {found : Found Char}
    (repeated : PyVal.lookup (.str (parameterName found)) arguments ≠ none)
    (rest : List (Found Char)) :
    ∃ exc, readParameters interpreter schema properties (found :: rest) arguments = .error exc ∧
      isToolProtocolError exc = true := by
  have named : pyStrip (group found 1) = parameterName found := rfl
  simp only [readParameters, named, if_pos (Option.isSome_iff_ne_none.2 repeated)]
  exact ⟨_, rfl, isToolProtocolError_mk _⟩

/-- The members of a dict with others stored into it one by one. -/
def insertFields (fields : List (PyKey × PyVal)) (members : List (String × PyVal)) :
    List (PyKey × PyVal) :=
  members.foldl (fun fields member => insertField member.1 member.2 fields) fields

/-- The arguments, from the parameter elements and their values. -/
def argumentsOf (founds : List (Found Char)) (values : List PyVal) : List (String × PyVal) :=
  (founds.map parameterName).zip values

/-- Distinct names, none of them stored yet. -/
def Fresh (arguments : List (PyKey × PyVal)) (founds : List (Found Char)) : Prop :=
  (founds.map parameterName).Nodup ∧
    ∀ found ∈ founds, PyVal.lookup (.str (parameterName found)) arguments = none

theorem fresh_cons {found : Found Char} {rest : List (Found Char)} {value : PyVal}
    (ascending : AscendingKeys arguments) : Fresh arguments (found :: rest) ↔
      PyVal.lookup (.str (parameterName found)) arguments = none ∧
        Fresh (insertField (parameterName found) value arguments) rest := by
  have others : ∀ other : Found Char, PyVal.lookup (.str (parameterName other))
      (insertField (parameterName found) value arguments) = none ↔
        parameterName other ≠ parameterName found ∧
          PyVal.lookup (.str (parameterName other)) arguments = none := by
    intro other
    rw [lookup_insertField _ _ _ ascending]
    split
    · rename_i same
      simp [same]
    · rename_i different
      simp [different]
  simp only [Fresh, List.map_cons, List.nodup_cons, List.forall_mem_cons, List.mem_map, others]
  constructor
  · rintro ⟨⟨notLater, distinct⟩, first, later⟩
    exact ⟨first, distinct, fun other member =>
      ⟨fun same => notLater ⟨other, member, same⟩, later other member⟩⟩
  · rintro ⟨first, distinct, later⟩
    refine ⟨⟨?_, distinct⟩, first, fun other member => (later other member).2⟩
    rintro ⟨other, member, same⟩
    exact (later other member).1 same

/-- All parameter elements are read exactly if their names are new and distinct and each has a
value. -/
theorem readParameters_eq_ok {founds : List (Found Char)} {result : List (PyKey × PyVal)}
    (ascending : AscendingKeys arguments) :
    readParameters interpreter schema properties founds arguments = .ok result ↔
      Fresh arguments founds ∧
        ∃ values, List.Forall₂ (Converts interpreter schema properties) founds values ∧
          result = insertFields arguments (argumentsOf founds values) := by
  induction founds generalizing arguments with
  | nil => simp [readParameters, Fresh, insertFields, argumentsOf, eq_comm]
  | cons found rest ih =>
      constructor
      · intro read
        by_cases fresh : PyVal.lookup (.str (parameterName found)) arguments = none
        · by_cases hasValue : ∃ value, Converts interpreter schema properties found value
          · obtain ⟨value, converts⟩ := hasValue
            rw [readParameters_converts fresh converts] at read
            obtain ⟨later, values, others, rfl⟩ :=
              (ih (ascending_insertField _ value ascending)).1 read
            exact ⟨(fresh_cons ascending).2 ⟨fresh, later⟩, value :: values, .cons converts others,
              rfl⟩
          · obtain ⟨exc, refused, _⟩ := readParameters_refuses (not_exists.1 hasValue) rest
            cases read.symm.trans refused
        · obtain ⟨exc, refused, _⟩ := readParameters_repeated fresh rest
          cases read.symm.trans refused
      · rintro ⟨fresh, _, _ | ⟨converts, others⟩, rfl⟩
        rename_i value values
        have both := (@fresh_cons _ _ _ value ascending).1 fresh
        rw [readParameters_converts both.1 converts]
        exact (ih (ascending_insertField _ value ascending)).2 ⟨both.2, values, others, rfl⟩

/-- The reading ends in an exception that is no refusal exactly if the first parameter element
that is not read crashes. -/
theorem readParameters_crashes {founds : List (Found Char)} (ascending : AscendingKeys arguments) :
    (∃ exc, readParameters interpreter schema properties founds arguments = .error exc ∧
      isToolProtocolError exc = false) ↔
      ∃ earlier found later, founds = earlier ++ found :: later ∧
        Fresh arguments (earlier ++ [found]) ∧
          (∀ other ∈ earlier, ∃ value, Converts interpreter schema properties other value) ∧
            Crashes interpreter schema properties found := by
  induction founds generalizing arguments with
  | nil =>
      constructor
      · nofun
      · rintro ⟨earlier, found, later, empty, _⟩
        exact absurd empty.symm (by simp)
  | cons found rest ih =>
      constructor
      · rintro ⟨exc, read, foreign⟩
        by_cases fresh : PyVal.lookup (.str (parameterName found)) arguments = none
        · by_cases hasValue : ∃ value, Converts interpreter schema properties found value
          · obtain ⟨value, converts⟩ := hasValue
            rw [readParameters_converts fresh converts] at read
            obtain ⟨earlier, last, later, rfl, distinct, others, crashes⟩ :=
              (ih (ascending_insertField _ value ascending)).1 ⟨exc, read, foreign⟩
            exact ⟨found :: earlier, last, later, rfl, (fresh_cons ascending).2 ⟨fresh, distinct⟩,
              List.forall_mem_cons.2 ⟨⟨value, converts⟩, others⟩, crashes⟩
          · obtain ⟨exc', refused, reason⟩ := readParameters_refuses (not_exists.1 hasValue) rest
            obtain rfl := Except.error.inj (read.symm.trans refused)
            exact ⟨[], found, rest, rfl, ⟨by simp, by simpa using fresh⟩, by simp,
              (reason.1 foreign).2⟩
        · obtain ⟨exc', refused, known⟩ := readParameters_repeated fresh rest
          obtain rfl := Except.error.inj (read.symm.trans refused)
          rw [known] at foreign
          cases foreign
      · rintro ⟨_ | ⟨first, earlier⟩, last, later, same, distinct, others, crashes⟩
        · obtain ⟨rfl, rfl⟩ := List.cons.inj same
          have noValue : ∀ value, ¬ Converts interpreter schema properties found value := by
            rintro value ⟨declared, isSchema, isValue⟩
            obtain ⟨declared', exc, isSchema', isError, _⟩ := crashes_iff.1 crashes
            obtain rfl := Except.ok.inj (isSchema.symm.trans isSchema')
            cases isValue.symm.trans isError
          obtain ⟨exc, refused, reason⟩ :=
            @readParameters_refuses _ _ _ arguments _ noValue rest
          exact ⟨exc, refused, reason.2 ⟨distinct.2 found (by simp), crashes⟩⟩
        · obtain ⟨rfl, rfl⟩ := List.cons.inj same
          obtain ⟨value, converts⟩ := others found List.mem_cons_self
          have both := (@fresh_cons _ _ _ value ascending).1 distinct
          rw [readParameters_converts both.1 converts]
          exact (ih (ascending_insertField _ value ascending)).2 ⟨earlier, last, later, rfl, both.2,
            fun other member => others other (List.mem_cons_of_mem _ member), crashes⟩

end Parameters

/-! ### The arguments of a call -/

theorem ascending_nil {β : Type} : AscendingKeys ([] : List (PyKey × β)) :=
  ⟨fun _ => nofun, List.Pairwise.nil⟩

theorem fresh_nil {founds : List (Found Char)} :
    Fresh [] founds ↔ (founds.map parameterName).Nodup :=
  and_iff_left fun _ _ => rfl

section Arguments

variable (interpreter : Interpreter) (function : PyVal) (body : List Char)

/-- The parts of a body that is looked into: dicts as schemas, and nothing but whitespace beside
the parameter elements. -/
structure WellFormed : Prop where
  parameters : (declaredParameters function).isDict = true
  properties : (declaredProperties (declaredParameters function)).isDict = true
  residue : Blank (erase parameterRe body 0)

/-- A body whose parameter elements have the values and make a call of the function. -/
structure Readable (values : List PyVal) : Prop extends WellFormed function body where
  distinct : ((finditer parameterRe body 0).map parameterName).Nodup
  converts : List.Forall₂ (Converts interpreter (declaredParameters function)
    (declaredProperties (declaredParameters function))) (finditer parameterRe body 0) values
  required : ∃ names : List String,
    orDefault ((declaredParameters function).get? "required") (.list []) =
      .list (names.map .str) ∧
    ∀ name ∈ names, name ∈ (finditer parameterRe body 0).map parameterName

/-- A body whose first parameter element without a value crashes. -/
structure Escapes : Prop extends WellFormed function body where
  crashes : ∃ earlier found later, finditer parameterRe body 0 = earlier ++ found :: later ∧
    ((earlier ++ [found]).map parameterName).Nodup ∧
      (∀ other ∈ earlier, ∃ value, Converts interpreter (declaredParameters function)
        (declaredProperties (declaredParameters function)) other value) ∧
      Crashes interpreter (declaredParameters function)
        (declaredProperties (declaredParameters function)) found

variable {interpreter function body}

theorem lookup_insertFields_isNone {name : String} {members : List (String × PyVal)} :
    ∀ {fields : List (PyKey × PyVal)}, AscendingKeys fields →
      ((PyVal.lookup (.str name) (insertFields fields members)).isNone = true ↔
        (PyVal.lookup (.str name) fields).isNone = true ∧ name ∉ members.map Prod.fst) := by
  induction members with
  | nil => simp [insertFields]
  | cons member members ih =>
      intro fields ascending
      have later := ih (ascending_insertField member.1 member.2 ascending)
      rw [lookup_insertField _ _ _ ascending] at later
      rw [insertFields, List.foldl_cons, ← insertFields, later]
      split
      · rename_i same
        simp [same]
      · rename_i different
        simp [different]

/-- What is stored under a name, if the stored names are distinct. -/
theorem lookup_insertFields {name : String} {value : PyVal} {members : List (String × PyVal)} :
    ∀ {fields : List (PyKey × PyVal)}, AscendingKeys fields → (members.map Prod.fst).Nodup →
      (PyVal.lookup (.str name) (insertFields fields members) = some value ↔
        (name, value) ∈ members ∨
          name ∉ members.map Prod.fst ∧ PyVal.lookup (.str name) fields = some value) := by
  induction members with
  | nil => simp [insertFields]
  | cons member members ih =>
      intro fields ascending distinct
      rw [List.map_cons, List.nodup_cons] at distinct
      have later := ih (ascending_insertField member.1 member.2 ascending) distinct.2
      rw [lookup_insertField _ _ _ ascending] at later
      rw [insertFields, List.foldl_cons, ← insertFields, later]
      by_cases same : name = member.1
      · subst same
        have absent : (member.1, value) ∉ members := fun inside =>
          distinct.1 (List.mem_map.2 ⟨_, inside, rfl⟩)
        simp [absent, distinct.1, Prod.ext_iff, eq_comm]
      · simp [same, Prod.ext_iff]

theorem ascending_insertFields {members : List (String × PyVal)} :
    ∀ {fields : List (PyKey × PyVal)}, AscendingKeys fields →
      AscendingKeys (insertFields fields members) := by
  induction members with
  | nil => exact fun ascending => ascending
  | cons member members ih =>
      exact fun ascending => ih (ascending_insertField member.1 member.2 ascending)

/-- A dict that is made of distinct members has these and no others. -/
theorem lookup_members {members : List (String × PyVal)} (distinct : (members.map Prod.fst).Nodup)
    {key : PyKey} {value : PyVal} : PyVal.lookup key (insertFields [] members) = some value ↔
      ∃ name, key = .str name ∧ (name, value) ∈ members := by
  constructor
  · intro found
    have isStr : key.isStr = true :=
      (ascending_insertFields ascending_nil).1 _ (mem_of_lookup found)
    rw [← PyKey.str_text isStr, lookup_insertFields ascending_nil distinct] at found
    rcases found with inside | ⟨_, absent⟩
    · exact ⟨key.text, (PyKey.str_text isStr).symm, inside⟩
    · cases absent
  · rintro ⟨name, rfl, inside⟩
    exact (lookup_insertFields ascending_nil distinct).2 (.inl inside)

theorem argumentsOf_names {founds : List (Found Char)} {values : List PyVal}
    (same : founds.length = values.length) :
    (argumentsOf founds values).map Prod.fst = founds.map parameterName := by
  rw [argumentsOf, List.map_fst_zip]
  rw [List.length_map, same]

/-- What happens after the checks of the schemas and of the residue. -/
theorem readArguments_wellFormed (name : String) (wellFormed : WellFormed function body) :
    readArguments interpreter name function body = (do
      let arguments ← readParameters interpreter (declaredParameters function)
        (declaredProperties (declaredParameters function)) (finditer parameterRe body 0) []
      let required ← requiredNames name (declaredParameters function)
      let missing := required.filter fun item => (PyVal.lookup (.str item) arguments).isNone
      if missing ≠ [] then
        .error (toolProtocolError ("required parameter(s) missing: " ++
          pyJoin ", " (missing.insertionSort (· ≤ ·))))
      else .ok arguments) := by
  simp only [readArguments, wellFormed.parameters, wellFormed.properties,
    wellFormed.residue.pyStrip, Bool.not_true, Bool.false_eq_true, if_false, ne_eq, not_true]

theorem readArguments_malformed (name : String) (malformed : ¬ WellFormed function body) :
    ∃ exc, readArguments interpreter name function body = .error exc ∧
      isToolProtocolError exc = true := by
  unfold readArguments
  by_cases parameters : (declaredParameters function).isDict = true
  · by_cases properties : (declaredProperties (declaredParameters function)).isDict = true
    · have residue : pyStrip (String.ofList (erase parameterRe body 0)) ≠ "" := fun empty =>
        malformed ⟨parameters, properties, pyStrip_eq_empty.1 empty⟩
      simp only [parameters, properties, residue, Bool.not_true, Bool.false_eq_true, if_false, ne_eq,
        not_false_eq_true, if_true]
      exact ⟨_, rfl, isToolProtocolError_mk _⟩
    · rw [Bool.not_eq_true] at properties
      simp only [parameters, properties, Bool.not_true, Bool.false_eq_true, if_false, Bool.not_false,
        if_true]
      exact ⟨_, rfl, isToolProtocolError_mk _⟩
  · rw [Bool.not_eq_true] at parameters
    simp only [parameters, Bool.not_false, if_true]
    exact ⟨_, rfl, isToolProtocolError_mk _⟩

/-- Nothing required is missing. -/
theorem missing_eq_nil {names : List String} {members : List (String × PyVal)} :
    (names.filter fun item =>
      (PyVal.lookup (.str item) (insertFields [] members)).isNone) = [] ↔
        ∀ name ∈ names, name ∈ members.map Prod.fst := by
  rw [List.filter_eq_nil_iff]
  refine forall_congr' fun name => imp_congr_right fun _ => ?_
  rw [lookup_insertFields_isNone ascending_nil]
  simp [PyVal.lookup]

/-- A call is read exactly if its body has values that make a call of the function, and these are
its arguments. -/
theorem readArguments_eq_ok {name : String} {arguments : List (PyKey × PyVal)} :
    readArguments interpreter name function body = .ok arguments ↔
      ∃ values, Readable interpreter function body values ∧
        arguments = insertFields [] (argumentsOf (finditer parameterRe body 0) values) := by
  by_cases wellFormed : WellFormed function body
  · rw [readArguments_wellFormed name wellFormed]
    constructor
    · intro read
      cases isRead : readParameters interpreter (declaredParameters function)
          (declaredProperties (declaredParameters function)) (finditer parameterRe body 0) [] with
      | error exc =>
          rw [isRead] at read
          cases read
      | ok taken =>
          obtain ⟨fresh, values, converts, rfl⟩ := (readParameters_eq_ok ascending_nil).1 isRead
          rw [isRead] at read
          simp only [bind, Except.bind] at read
          split at read
          · cases read
          · rename_i names isRequired
            split at read
            · cases read
            · rename_i complete
              cases read
              rw [ne_eq, not_not, missing_eq_nil, argumentsOf_names converts.length_eq] at complete
              exact ⟨values, ⟨wellFormed, fresh_nil.1 fresh, converts, names,
                requiredNames_eq_ok.1 isRequired, complete⟩, rfl⟩
    · rintro ⟨values, ⟨_, distinct, converts, names, isRequired, complete⟩, rfl⟩
      have isRead : readParameters interpreter (declaredParameters function)
          (declaredProperties (declaredParameters function)) (finditer parameterRe body 0) [] =
            .ok (insertFields [] (argumentsOf (finditer parameterRe body 0) values)) :=
        (readParameters_eq_ok ascending_nil).2 ⟨fresh_nil.2 distinct, values, converts, rfl⟩
      rw [← argumentsOf_names converts.length_eq] at complete
      have present := missing_eq_nil.2 complete
      rw [isRead]
      simp only [bind, Except.bind, requiredNames_eq_ok.2 isRequired]
      rw [if_neg (not_not.2 present)]
  · obtain ⟨exc, refused, _⟩ := @readArguments_malformed interpreter _ _ name wellFormed
    rw [refused]
    constructor
    · nofun
    · rintro ⟨values, readable, _⟩
      exact absurd readable.toWellFormed wellFormed

/-- The reading of a call ends in an exception that is no refusal exactly if a parameter
crashes. -/
theorem readArguments_escapes {name : String} :
    (∃ exc, readArguments interpreter name function body = .error exc ∧
      isToolProtocolError exc = false) ↔ Escapes interpreter function body := by
  by_cases wellFormed : WellFormed function body
  · rw [readArguments_wellFormed name wellFormed]
    have reads := @readParameters_crashes interpreter (declaredParameters function)
      (declaredProperties (declaredParameters function)) [] (finditer parameterRe body 0)
      ascending_nil
    simp only [fresh_nil] at reads
    constructor
    · rintro ⟨exc, read, foreign⟩
      refine ⟨wellFormed, reads.1 ⟨exc, ?_, foreign⟩⟩
      cases isRead : readParameters interpreter (declaredParameters function)
          (declaredProperties (declaredParameters function)) (finditer parameterRe body 0) [] with
      | error exc' =>
          rw [isRead] at read
          exact read
      | ok taken =>
          rw [isRead] at read
          simp only [bind, Except.bind] at read
          split at read
          · rename_i isRequired
            cases read
            rw [requiredNames_error isRequired] at foreign
            cases foreign
          · split at read
            · cases read
              rw [isToolProtocolError_mk] at foreign
              cases foreign
            · cases read
    · rintro ⟨_, crashes⟩
      obtain ⟨exc, isRead, foreign⟩ := reads.2 crashes
      exact ⟨exc, by rw [isRead]; rfl, foreign⟩
  · obtain ⟨exc, refused, known⟩ := @readArguments_malformed interpreter _ _ name wellFormed
    constructor
    · rintro ⟨exc', read, foreign⟩
      obtain rfl := Except.error.inj (read.symm.trans refused)
      rw [known] at foreign
      cases foreign
    · exact fun escapes => absurd escapes.toWellFormed wellFormed

end Arguments

end PreActive.Bridge

/-
Module: PreActive.Python.JsonOrder
Purpose: What `json.loads` makes of the text of any value that `json.dumps` accepts, and when the
  value it returns is printed as the same text again.
Trusted boundary: none
Main exports: reread, namesAscend, write_reread, write_reread_iff, loads_of_dumps
-/
import PreActive.Python.JsonRoundTrip

namespace PreActive.Python

/-- Induction over a value with a hypothesis for each element of a list and each value of a dict. -/
theorem PyVal.induction {P : PyVal → Prop} (leaf : ∀ value : PyVal, value.isDict = false →
      (∀ items, value ≠ .list items) → P value)
    (list : ∀ items, (∀ item ∈ items, P item) → P (.list items))
    (dict : ∀ fields : List (PyKey × PyVal), (∀ field ∈ fields, P field.2) → P (.dict fields)) :
    ∀ value, P value
  | .none => leaf .none rfl fun _ => nofun
  | .bool value => leaf (.bool value) rfl fun _ => nofun
  | .int value => leaf (.int value) rfl fun _ => nofun
  | .float value => leaf (.float value) rfl fun _ => nofun
  | .str text => leaf (.str text) rfl fun _ => nofun
  | .object className => leaf (.object className) rfl fun _ => nofun
  | .list items => list items fun item _ => PyVal.induction leaf list dict item
  | .dict fields => dict fields fun field _ => PyVal.induction leaf list dict field.2
termination_by value => sizeOf value
decreasing_by
  · simp only [PyVal.list.sizeOf_spec]
    have smaller := List.sizeOf_lt_of_mem ‹item ∈ items›
    omega
  · simp only [PyVal.dict.sizeOf_spec]
    have smaller := List.sizeOf_lt_of_mem ‹field ∈ fields›
    have inside : sizeOf field = 1 + sizeOf field.1 + sizeOf field.2 := by
      cases field
      rfl
    omega

/-! ### Related lists -/

section Related

variable {α β γ : Type} {R : α → β → Prop} {S : β → γ → Prop}

theorem forall₂_chain {xs : List α} {ys : List β} {zs : List γ} (first : List.Forall₂ R xs ys)
    (second : List.Forall₂ S ys zs) :
    List.Forall₂ (fun x z => ∃ y, R x y ∧ S y z) xs zs := by
  induction first generalizing zs with
  | nil =>
      cases second
      exact .nil
  | cons head _ ih =>
      cases second with
      | cons head' tail' => exact .cons ⟨_, head, head'⟩ (ih tail')

theorem forall₂_left {xs : List α} {ys : List β} (related : List.Forall₂ R xs ys) :
    ∀ x ∈ xs, ∃ y, R x y := by
  induction related with
  | nil => exact fun _ => nofun
  | cons head _ ih => exact List.forall_mem_cons.2 ⟨⟨_, head⟩, ih⟩

theorem exists_forall₂ : ∀ {xs : List α}, (∀ x ∈ xs, ∃ y, R x y) → ∃ ys, List.Forall₂ R xs ys
  | [], _ => ⟨[], .nil⟩
  | x :: xs, each => by
      obtain ⟨y, head⟩ := each x List.mem_cons_self
      obtain ⟨ys, tail⟩ := exists_forall₂ fun x' member => each x' (List.mem_cons_of_mem _ member)
      exact ⟨y :: ys, .cons head tail⟩

variable {before : α → α → Prop} {before' : β → β → Prop} [DecidableRel before]
  [DecidableRel before']

theorem forall₂_orderedInsert {x : α} {y : β} {xs : List α} {ys : List β}
    (agree : ∀ a b a' b', R a b → R a' b' → (before a a' ↔ before' b b')) (head : R x y)
    (tail : List.Forall₂ R xs ys) :
    List.Forall₂ R (xs.orderedInsert before x) (ys.orderedInsert before' y) := by
  induction tail with
  | nil => exact .cons head .nil
  | @cons x' y' _ _ head' tail' ih =>
      by_cases first : before x x'
      · rw [List.orderedInsert_cons, if_pos first, List.orderedInsert_cons,
          if_pos ((agree _ _ _ _ head head').1 first)]
        exact .cons head (.cons head' tail')
      · rw [List.orderedInsert_cons, if_neg first, List.orderedInsert_cons,
          if_neg fun first' => first ((agree _ _ _ _ head head').2 first')]
        exact .cons head' ih

/-- Lists whose elements are compared alike are sorted alike. -/
theorem forall₂_insertionSort {xs : List α} {ys : List β}
    (agree : ∀ a b a' b', R a b → R a' b' → (before a a' ↔ before' b b'))
    (related : List.Forall₂ R xs ys) :
    List.Forall₂ R (xs.insertionSort before) (ys.insertionSort before') := by
  induction related with
  | nil => exact .nil
  | cons head _ ih => exact forall₂_orderedInsert agree head ih

end Related

section Fields

variable {β γ : Type} {R : PyKey × β → PyKey × γ → Prop} {fields : List (PyKey × β)}
  {fields' : List (PyKey × γ)}

theorem all_keys (sameKey : ∀ field field', R field field' → field.1 = field'.1)
    (related : List.Forall₂ R fields fields') (p : PyKey → Bool) :
    fields.all (fun field => p field.1) = fields'.all fun field => p field.1 := by
  induction related with
  | nil => rfl
  | cons head _ ih => rw [List.all_cons, List.all_cons, ih, sameKey _ _ head]

/-- Only the keys decide how fields are sorted. -/
theorem sortFields_related (sameKey : ∀ field field', R field field' → field.1 = field'.1)
    (related : List.Forall₂ R fields fields') {sorted : List (PyKey × β)}
    (sorts : sortFields fields = .ok sorted) :
    ∃ sorted', sortFields fields' = .ok sorted' ∧ List.Forall₂ R sorted sorted' := by
  have strings := all_keys sameKey related PyKey.isStr
  have numbers := all_keys sameKey related fun key => key.number?.isSome
  unfold sortFields at sorts ⊢
  rw [← strings, ← numbers, ← related.length_eq]
  split at sorts
  · rename_i areStrings
    cases sorts
    refine ⟨_, if_pos areStrings, forall₂_insertionSort ?_ related⟩
    intro a b a' b' same same'
    rw [sameKey _ _ same, sameKey _ _ same']
  · rename_i notStrings
    rw [if_neg notStrings]
    split at sorts
    · rename_i areNumbers
      cases sorts
      refine ⟨_, if_pos areNumbers, forall₂_insertionSort ?_ related⟩
      intro a b a' b' same same'
      rw [sameKey _ _ same, sameKey _ _ same']
    · rename_i notNumbers
      rw [if_neg notNumbers]
      split at sorts
      · rename_i short
        cases sorts
        exact ⟨_, if_pos short, related⟩
      · cases sorts

theorem sortFields_map (change : β → γ) {sorted : List (PyKey × β)}
    (sorts : sortFields fields = .ok sorted) :
    sortFields (fields.map fun field => (field.1, change field.2)) =
      .ok (sorted.map fun field => (field.1, change field.2)) := by
  let Changed := fun (field : PyKey × β) (field' : PyKey × γ) => (field.1, change field.2) = field'
  have related : List.Forall₂ Changed fields (fields.map fun field => (field.1, change field.2)) :=
    List.forall₂_map_right_iff.2 (List.forall₂_same.2 fun _ _ => rfl)
  have sameKey : ∀ field field', Changed field field' → field.1 = field'.1 :=
    fun _ _ same => congrArg Prod.fst same
  obtain ⟨sorted', sorts', same⟩ := sortFields_related sameKey related sorts
  have mapped : sorted.map (fun field => (field.1, change field.2)) = sorted' := by
    have equal := List.forall₂_map_left_iff.2 same
    rwa [List.forall₂_eq_eq_eq] at equal
  rw [sorts', mapped]

theorem sortFields_perm {sorted : List (PyKey × β)} (sorts : sortFields fields = .ok sorted) :
    sorted.Perm fields := by
  unfold sortFields at sorts
  split at sorts
  · cases sorts
    exact List.perm_insertionSort _ _
  · split at sorts
    · cases sorts
      exact List.perm_insertionSort _ _
    · split at sorts
      · cases sorts
        exact List.Perm.refl _
      · cases sorts

end Fields

/-! ### What a text reads back as -/

mutual

/-- The value that `json.loads` returns for the text of a value: member names are strings, and of
two members with one name the later one counts. -/
def reread : PyVal → PyVal
  | .list items => .list (rereadItems items)
  | .dict fields =>
      match sortFields (rereadFields fields) with
      | .ok sorted => ofMembers (sorted.map fun field => (field.1.memberName, field.2))
      | .error _ => .dict []
  | value => value

def rereadItems : List PyVal → List PyVal
  | [] => []
  | item :: rest => reread item :: rereadItems rest

def rereadFields : List (PyKey × PyVal) → List (PyKey × PyVal)
  | [] => []
  | (key, value) :: rest => (key, reread value) :: rereadFields rest

end

mutual

/-- In every dict of a value the names of the members, in the order of their sorted keys, strictly
ascend. -/
def namesAscend : PyVal → Bool
  | .list items => namesAscendItems items
  | .dict fields =>
      (match sortFields fields with
        | .ok sorted => decide ((sorted.map fun field => field.1.memberName).Pairwise (· < ·))
        | .error _ => true) && namesAscendFields fields
  | _ => true

def namesAscendItems : List PyVal → Bool
  | [] => true
  | item :: rest => namesAscend item && namesAscendItems rest

def namesAscendFields : List (PyKey × PyVal) → Bool
  | [] => true
  | (_, value) :: rest => namesAscend value && namesAscendFields rest

end

theorem rereadItems_eq_map : ∀ items, rereadItems items = items.map reread
  | [] => rfl
  | item :: items => by rw [rereadItems, rereadItems_eq_map items, List.map_cons]

theorem rereadFields_eq_map : ∀ fields,
    rereadFields fields = fields.map fun field => (field.1, reread field.2)
  | [] => rfl
  | field :: fields => by rw [rereadFields, rereadFields_eq_map fields, List.map_cons]

theorem namesAscendItems_eq_true : ∀ {items},
    namesAscendItems items = true ↔ ∀ item ∈ items, namesAscend item = true
  | [] => by simp [namesAscendItems]
  | item :: items => by
      simp [namesAscendItems, @namesAscendItems_eq_true items]

theorem namesAscendFields_eq_true : ∀ {fields},
    namesAscendFields fields = true ↔ ∀ field ∈ fields, namesAscend field.2 = true
  | [] => by simp [namesAscendFields]
  | field :: fields => by
      rw [namesAscendFields, Bool.and_eq_true, @namesAscendFields_eq_true fields,
        List.forall_mem_cons]

theorem isJsonItems_iff : ∀ {items : List PyVal},
    isJsonItems items = true ↔ ∀ item ∈ items, isJson item = true
  | [] => by simp [isJsonItems]
  | item :: items => by simp [isJsonItems, @isJsonItems_iff items]

/-! ### Texts of parts -/

/-- The keys and texts of fields that were written. -/
def WrittenField (style : JsonStyle) (field : PyKey × PyVal) (written : PyKey × List Char) : Prop :=
  field.1 = written.1 ∧ write style field.2 = .ok written.2

theorem writeItems_forall₂ {style : JsonStyle} : ∀ {items texts},
    writeItems style items = .ok texts ↔
      List.Forall₂ (fun item text => write style item = .ok text) items texts
  | [], texts => by
      rw [writeItems, List.forall₂_nil_left_iff]
      exact ⟨fun same => (Except.ok.inj same).symm, fun same => same ▸ rfl⟩
  | item :: items, texts => by
      rw [writeItems]
      constructor
      · intro written
        split at written
        · rename_i first rest
          cases written
          exact .cons first (writeItems_forall₂.1 rest)
        · cases written
        · cases written
      · rintro (_ | ⟨first, rest⟩)
        rw [first, writeItems_forall₂.2 rest]

theorem writeFields_forall₂ {style : JsonStyle} : ∀ {fields written},
    writeFields style fields = .ok written ↔ List.Forall₂ (WrittenField style) fields written
  | [], written => by
      rw [writeFields, List.forall₂_nil_left_iff]
      exact ⟨fun same => (Except.ok.inj same).symm, fun same => same ▸ rfl⟩
  | (key, value) :: fields, written => by
      rw [writeFields]
      constructor
      · intro same
        split at same
        · rename_i first rest
          cases same
          exact .cons ⟨rfl, first⟩ (writeFields_forall₂.1 rest)
        · cases same
        · cases same
      · rintro (_ | @⟨_, ⟨key', text⟩, _, _, ⟨rfl, first⟩, rest⟩)
        rw [first, writeFields_forall₂.2 rest]

/-- A dict is written member by member, in the order of its sorted keys. -/
theorem write_dict_ok {style : JsonStyle} {fields : List (PyKey × PyVal)} {text : List Char}
    (same : write style (.dict fields) = .ok text) :
    ∃ sorted written, sortFields fields = .ok sorted ∧
      List.Forall₂ (WrittenField style) sorted written ∧
        text = writeSequence style '{' '}' (written.map (writeMember style)) := by
  rw [write] at same
  split at same
  · rename_i written isWritten
    split at same
    · rename_i sorted' sorts
      cases same
      have related := writeFields_forall₂.1 isWritten
      obtain ⟨sorted, sorts', back⟩ :=
        sortFields_related (R := fun written field => WrittenField style field written)
          (fun _ _ same => same.1.symm) related.flip sorts
      exact ⟨sorted, sorted', sorts', back.flip, rfl⟩
    · cases same
  · cases same

theorem AscendingKeys.related {β γ : Type} {R : PyKey × β → PyKey × γ → Prop}
    {fields : List (PyKey × β)} {fields' : List (PyKey × γ)} (ascending : AscendingKeys fields)
    (sameKey : ∀ field field', R field field' → field.1 = field'.1)
    (related : List.Forall₂ R fields fields') : AscendingKeys fields' := by
  have keys : fields.map (·.1) = fields'.map (·.1) := by
    induction related with
    | nil => rfl
    | cons head _ ih =>
        rw [List.map_cons, List.map_cons, sameKey _ _ head,
          ih ⟨fun field member => ascending.1 field (List.mem_cons_of_mem _ member),
            (List.pairwise_cons.1 ascending.2).2⟩]
  constructor
  · intro field member
    have key : field.1 ∈ fields.map (·.1) := keys ▸ List.mem_map_of_mem member
    obtain ⟨field', member', same⟩ := List.mem_map.1 key
    exact same ▸ ascending.1 field' member'
  · have sorted : (fields.map (·.1)).Pairwise fun a b => a.text < b.text :=
      List.pairwise_map.2 ascending.2
    rw [keys] at sorted
    rwa [List.pairwise_map] at sorted

/-- Members in ascending order are written as they stand. -/
theorem write_ascending {style : JsonStyle} {fields : List (PyKey × PyVal)}
    {written : List (PyKey × List Char)} (ascending : AscendingKeys fields)
    (related : List.Forall₂ (WrittenField style) fields written) :
    write style (.dict fields) =
      .ok (writeSequence style '{' '}' (written.map (writeMember style))) := by
  have inOrder := ascending.related (fun _ _ same => same.1) related
  rw [write, writeFields_forall₂.2 related]
  simp only [sortFields_ascending inOrder]

/-! ### Reading a printed value -/

theorem isJsonFields_iff : ∀ {fields : List (PyKey × PyVal)},
    isJsonFields fields = true ↔ ∀ field ∈ fields, isJson field.2 = true
  | [] => by simp [isJsonFields]
  | field :: fields => by
      rw [isJsonFields, Bool.and_eq_true, @isJsonFields_iff fields,
        List.forall_mem_cons]

theorem isJson_dict {fields : List (PyKey × PyVal)} : isJson (.dict fields) = true ↔
    AscendingKeys fields ∧ ∀ field ∈ fields, isJson field.2 = true := by
  rw [isJson, Bool.and_eq_true, Bool.and_eq_true, decide_eq_true_eq, List.all_eq_true,
    isJsonFields_iff]
  rfl

theorem mem_insertField {name : String} {value : PyVal} {field : PyKey × PyVal} :
    ∀ {fields : List (PyKey × PyVal)}, field ∈ insertField name value fields →
      field = (.str name, value) ∨ field ∈ fields
  | [], member => .inl (List.mem_singleton.1 member)
  | (key, old) :: rest, member => by
      rw [insertField] at member
      split at member
      · exact (List.mem_cons.1 member).imp_right (List.mem_cons_of_mem _)
      · split at member
        · exact List.mem_cons.1 member
        · rcases List.mem_cons.1 member with rfl | later
          · exact .inr List.mem_cons_self
          · exact (mem_insertField later).imp_right (List.mem_cons_of_mem _)

theorem ascending_insertField (name : String) (value : PyVal) :
    ∀ {fields : List (PyKey × PyVal)}, AscendingKeys fields →
      AscendingKeys (insertField name value fields)
  | [], _ => ⟨fun field member => by rw [List.mem_singleton.1 member]; rfl,
      List.pairwise_singleton _ _⟩
  | (key, old) :: rest, ⟨strings, ordered⟩ => by
      have above := (List.pairwise_cons.1 ordered).1
      have restAscends : AscendingKeys rest :=
        ⟨fun field member => strings field (List.mem_cons_of_mem _ member),
          (List.pairwise_cons.1 ordered).2⟩
      rw [insertField]
      split
      · rename_i same
        subst same
        refine ⟨List.forall_mem_cons.2 ⟨rfl, restAscends.1⟩, List.pairwise_cons.2 ⟨?_, restAscends.2⟩⟩
        exact above
      · rename_i different
        split
        · rename_i first
          refine ⟨List.forall_mem_cons.2 ⟨rfl, strings⟩, List.pairwise_cons.2 ⟨?_, ordered⟩⟩
          exact List.forall_mem_cons.2 ⟨first, fun field member => lt_trans first (above field member)⟩
        · rename_i notFirst
          have after : key.text < name := lt_of_le_of_ne (not_lt.1 notFirst) (Ne.symm different)
          have inserted := ascending_insertField name value restAscends
          refine ⟨List.forall_mem_cons.2 ⟨strings _ List.mem_cons_self, inserted.1⟩,
            List.pairwise_cons.2 ⟨fun field member => ?_, inserted.2⟩⟩
          rcases mem_insertField member with rfl | inside
          · exact after
          · exact above field inside

theorem isJson_insertField {name : String} {value : PyVal} {fields : List (PyKey × PyVal)}
    (json : isJson value = true) (whole : isJson (.dict fields) = true) :
    isJson (.dict (insertField name value fields)) = true := by
  rw [isJson_dict] at whole ⊢
  refine ⟨ascending_insertField name value whole.1, fun field member => ?_⟩
  rcases mem_insertField member with rfl | inside
  · exact json
  · exact whole.2 field inside

theorem mem_of_lookup {key : PyKey} {value : PyVal} {fields : List (PyKey × PyVal)}
    (found : PyVal.lookup key fields = some value) : (key, value) ∈ fields := by
  induction fields with
  | nil => cases found
  | cons field fields ih =>
      rw [PyVal.lookup] at found
      split at found
      · rename_i later isLater
        exact List.mem_cons_of_mem _ (ih (isLater.trans found))
      · split at found
        · rename_i same
          cases found
          rw [← same]
          exact List.mem_cons_self
        · cases found

theorem lookup_absent {name : String} {fields : List (PyKey × PyVal)}
    (absent : ∀ field ∈ fields, field.1 ≠ .str name) : PyVal.lookup (.str name) fields = none :=
  Option.eq_none_iff_forall_ne_some.2 fun _ found => absent _ (mem_of_lookup found) rfl

/-- A member is found under its name, and the others as before. -/
theorem lookup_insertField (name other : String) (value : PyVal) :
    ∀ {fields : List (PyKey × PyVal)}, AscendingKeys fields →
      PyVal.lookup (.str other) (insertField name value fields) =
        if other = name then some value else PyVal.lookup (.str other) fields
  | [], _ => by
      simp only [insertField, PyVal.lookup, PyKey.str.injEq, eq_comm (a := name)]
  | (key, old) :: rest, ⟨strings, ordered⟩ => by
      have above := (List.pairwise_cons.1 ordered).1
      have restAscends : AscendingKeys rest :=
        ⟨fun field member => strings field (List.mem_cons_of_mem _ member),
          (List.pairwise_cons.1 ordered).2⟩
      have isStr : PyKey.str key.text = key := PyKey.str_text (strings _ List.mem_cons_self)
      have missing : ∀ name, name ≤ key.text → PyVal.lookup (.str name) rest = none := by
        intro name below
        refine lookup_absent fun field member same => ?_
        have less := above field member
        rw [same] at less
        exact absurd (lt_of_le_of_lt below less) (lt_irrefl _)
      rw [insertField]
      split
      · rename_i same
        subst same
        rw [PyVal.lookup, PyVal.lookup, isStr]
        by_cases asked : other = key.text
        · rw [if_pos asked, asked, missing key.text (le_refl _)]
          exact if_pos isStr.symm
        · rw [if_neg asked]
          have apart : key ≠ .str other := fun same => asked (by rw [same]; rfl)
          rw [if_neg apart, if_neg apart]
      · rename_i different
        split
        · rename_i first
          rw [PyVal.lookup]
          by_cases asked : other = name
          · have absent : PyVal.lookup (.str other) ((key, old) :: rest) = none := by
              rw [asked, PyVal.lookup, missing name first.le]
              exact if_neg fun same => different (by rw [same]; rfl)
            rw [absent, if_pos asked, asked]
            exact if_pos rfl
          · rw [if_neg asked, if_neg fun same => asked (PyKey.str.inj same).symm]
            cases PyVal.lookup (.str other) ((key, old) :: rest) <;> rfl
        · rw [PyVal.lookup, lookup_insertField name other value restAscends, PyVal.lookup]
          by_cases asked : other = name
          · rw [if_pos asked, if_pos asked]
          · rw [if_neg asked, if_neg asked]

/-- A parsed object is a JSON value. -/
theorem isJson_ofMembers {members : List (String × PyVal)}
    (json : ∀ member ∈ members, isJson member.2 = true) : isJson (ofMembers members) = true := by
  have folds : ∀ {members : List (String × PyVal)} {fields : List (PyKey × PyVal)},
      (∀ member ∈ members, isJson member.2 = true) → isJson (.dict fields) = true →
        isJson (.dict (members.foldl
          (fun fields member => insertField member.1 member.2 fields) fields)) = true := by
    intro members
    induction members with
    | nil => exact fun _ whole => whole
    | cons member members ih =>
        intro fields json whole
        exact ih (fun later inside => json later (List.mem_cons_of_mem _ inside))
          (isJson_insertField (json member List.mem_cons_self) whole)
  exact folds json rfl

theorem readNumber_isJson {token : List Char} {value : PyVal} (read : readNumber token = some value) :
    isJson value = true := by
  unfold readNumber at read
  split at read
  · cases read
    rfl
  · obtain ⟨number, _, rfl⟩ := Option.map_eq_some_iff.1 read
    rfl

/-- Reading makes JSON values, elements and members. -/
theorem read_isJson : ∀ fuel,
    (∀ text value rest, readValue fuel text = some (value, rest) → isJson value = true) ∧
      (∀ text items rest, readItems fuel text = some (items, rest) →
        ∀ item ∈ items, isJson item = true) ∧
      ∀ text members rest, readMembers fuel text = some (members, rest) →
        ∀ member ∈ members, isJson member.2 = true
  | 0 => ⟨fun _ _ _ => nofun, fun _ _ _ => nofun, fun _ _ _ => nofun⟩
  | fuel + 1 => by
      obtain ⟨values, items, members⟩ := read_isJson fuel
      refine ⟨fun text value rest read => ?_, fun text list rest read => ?_,
        fun text list rest read => ?_⟩
      · unfold readValue at read
        split at read
        · obtain ⟨found, _, same⟩ := Option.map_eq_some_iff.1 read
          cases same
          rfl
        · split at read
          · cases read
            rfl
          · obtain ⟨found, isFound, same⟩ := Option.map_eq_some_iff.1 read
            cases same
            exact isJsonItems_iff.2 (items _ _ _ isFound)
        · split at read
          · cases read
            rfl
          · obtain ⟨found, isFound, same⟩ := Option.map_eq_some_iff.1 read
            cases same
            exact isJson_ofMembers (members _ _ _ isFound)
        all_goals first
          | (cases read; rfl)
          | (obtain ⟨number, isNumber, same⟩ := Option.map_eq_some_iff.1 read
             cases same
             exact readNumber_isJson isNumber)
      · unfold readItems at read
        split at read
        · cases read
        · rename_i item more isItem
          have json := values _ _ _ isItem
          split at read
          · cases read
            exact List.forall_mem_singleton.2 json
          · obtain ⟨found, isFound, same⟩ := Option.map_eq_some_iff.1 read
            cases same
            exact List.forall_mem_cons.2 ⟨json, items _ _ _ isFound⟩
          · cases read
      · unfold readMembers at read
        repeat' split at read
        all_goals try cases read
        · rename_i isValue _ _
          exact List.forall_mem_singleton.2 (values _ _ _ isValue)
        · rename_i isValue _ _ _
          obtain ⟨found, isFound, same⟩ := Option.map_eq_some_iff.1 read
          cases same
          exact List.forall_mem_cons.2 ⟨values _ _ _ isValue, members _ _ _ isFound⟩
/-- What `json.loads` returns is a JSON value. -/
theorem isJson_of_loads {text : String} {value : PyVal} (read : loads text = .ok value) :
    isJson value = true := by
  unfold loads at read
  split at read
  · rename_i isValue
    split at read
    · cases read
      exact (read_isJson _).1 _ _ _ isValue
    · cases read
  · cases read

theorem reread_leaf {value : PyVal} (notDict : value.isDict = false)
    (notList : ∀ items, value ≠ .list items) : reread value = value := by
  cases value with
  | list items => exact absurd rfl (notList items)
  | dict fields => cases notDict
  | _ => rfl

theorem isJson_leaf {style : JsonStyle} {value : PyVal} {text : List Char}
    (notDict : value.isDict = false) (notList : ∀ items, value ≠ .list items)
    (written : write style value = .ok text) : isJson value = true := by
  cases value with
  | list items => exact absurd rfl (notList items)
  | dict fields => cases notDict
  | object className => cases written
  | _ => rfl

theorem itemsReadBack_of_forall₂ {style : JsonStyle} {texts : List (List Char)}
    {items : List PyVal} (reads : List.Forall₂ ReadsBack texts items) :
    ItemsReadBack style texts items := by
  induction reads with
  | nil => rfl
  | cons first _ ih => exact itemsReadBack_cons first ih

theorem membersReadBack_of_forall₂ {style : JsonStyle} {sorted : List (PyKey × PyVal)}
    {written : List (PyKey × List Char)}
    (reads : List.Forall₂ (fun field text => field.1 = text.1 ∧ ReadsBack text.2 field.2)
      sorted written) :
    MembersReadBack style (written.map (writeMember style))
      (sorted.map fun field => (field.1.memberName, field.2)) := by
  induction reads with
  | nil => rfl
  | @cons field text _ _ first _ ih =>
      have named : writeMember style text = writeMember style (.str field.1.memberName, text.2) := by
        rw [first.1]
        rfl
      rw [List.map_cons, List.map_cons, named]
      exact membersReadBack_cons first.2 ih

/-- Every text that `json.dumps` writes reads back, as `reread` says, and as a JSON value. -/
theorem write_reread (style : JsonStyle) (value : PyVal) : ∀ text, write style value = .ok text →
    ReadsBack text (reread value) ∧ isJson (reread value) = true := by
  induction value using PyVal.induction with
  | leaf value notDict notList =>
      intro text written
      have json := isJson_leaf notDict notList written
      obtain ⟨text', written', reads⟩ := write_readsBack style value json
      obtain rfl : text = text' := Except.ok.inj (written.symm.trans written')
      rw [reread_leaf notDict notList]
      exact ⟨reads, json⟩
  | list items ih =>
      intro text written
      rw [write] at written
      split at written
      · rename_i texts isWritten
        cases written
        have related := (List.forall₂_and_left _ _).2 ⟨ih, writeItems_forall₂.1 isWritten⟩
        rw [reread, rereadItems_eq_map]
        constructor
        · refine readsBack_list (itemsReadBack_of_forall₂ (List.Forall₂.flip ?_))
          rw [List.forall₂_map_left_iff]
          exact related.imp fun _ text both => (both.1 text both.2).1
        · refine isJsonItems_iff.2 (List.forall_mem_map.2 fun item member => ?_)
          obtain ⟨text, reads, isText⟩ := forall₂_left related item member
          exact (reads text isText).2
      · cases written
  | dict fields ih =>
      intro text written
      obtain ⟨sorted, texts, sorts, writes, rfl⟩ := write_dict_ok written
      have inside := (sortFields_perm sorts).subset
      have related := (List.forall₂_and_left _ _).2
        ⟨fun field member => ih field (inside member), writes⟩
      have rereads : sortFields (rereadFields fields) =
          .ok (sorted.map fun field => (field.1, reread field.2)) := by
        rw [rereadFields_eq_map]
        exact sortFields_map reread sorts
      rw [reread, rereads]
      constructor
      · refine readsBack_members (membersReadBack_of_forall₂ ?_)
        rw [List.forall₂_map_left_iff]
        exact related.imp fun _ text both => ⟨both.2.1, (both.1 text.2 both.2.2).1⟩
      · refine isJson_ofMembers (List.forall_mem_map.2 (List.forall_mem_map.2 fun field member => ?_))
        obtain ⟨text, reads, isText⟩ := forall₂_left related field member
        exact (reads text.2 isText.2).2

/-! ### A text is delimited by what it says

Where a text ends can be told from the text itself, so a sequence of texts is determined by the
characters it is printed as. -/

/-- No text of the kind begins another one that is followed by a delimiter. -/
def PrefixFree (P : List Char → Prop) : Prop :=
  ∀ text text' rest rest', P text → P text' → Delimited rest → Delimited rest' →
    text ++ rest = text' ++ rest' → text = text' ∧ rest = rest'

theorem prefixFree_readsBack : PrefixFree fun text => ∃ value, ReadsBack text value := by
  rintro text text' rest rest' ⟨value, _, reads⟩ ⟨value', _, reads'⟩ delimited delimited' same
  have read := reads (text.length + text'.length + 1) rest (by omega) delimited
  have read' := reads' (text.length + text'.length + 1) rest' (by omega) delimited'
  rw [same, read', Option.some.injEq, Prod.mk.injEq] at read
  obtain ⟨_, rfl⟩ := read
  exact ⟨List.append_cancel_right same, rfl⟩

/-- The text of an object member. -/
def MemberText (style : JsonStyle) (member : List Char) : Prop :=
  ∃ key text value, member = writeMember style (key, text) ∧ ReadsBack text value

theorem writeMember_cancel {style : JsonStyle} {key key' : PyKey} {text text' : List Char}
    {value value' : PyVal} {rest rest' : List Char} (reads : ReadsBack text value)
    (reads' : ReadsBack text' value') (delimited : Delimited rest) (delimited' : Delimited rest')
    (same : writeMember style (key, text) ++ rest = writeMember style (key', text') ++ rest') :
    key.memberName = key'.memberName ∧ text = text' ∧ rest = rest' := by
  simp only [writeMember, List.append_assoc, List.cons_append] at same
  obtain ⟨body, opens, named⟩ := readString_writeString style key.memberName
    (':' :: (style.gap ++ (text ++ rest)))
  obtain ⟨body', opens', named'⟩ := readString_writeString style key'.memberName
    (':' :: (style.gap ++ (text' ++ rest')))
  rw [opens, opens', List.cons.injEq] at same
  rw [same.2, named', Option.some.injEq, Prod.mk.injEq, List.cons.injEq] at named
  obtain ⟨names, _, parts⟩ := named
  exact ⟨(String.toList_inj.1 names).symm, prefixFree_readsBack _ _ _ _ ⟨value, reads⟩
    ⟨value', reads'⟩ delimited delimited' (List.append_cancel_left parts).symm⟩

theorem prefixFree_member (style : JsonStyle) : PrefixFree (MemberText style) := by
  rintro _ _ rest rest' ⟨key, text, value, rfl, reads⟩ ⟨key', text', value', rfl, reads'⟩
    delimited delimited' same
  obtain ⟨names, rfl, rfl⟩ := writeMember_cancel reads reads' delimited delimited' same
  exact ⟨by rw [writeMember, writeMember, names], rfl⟩

theorem delimited_writeRest {style : JsonStyle} {close : Char} (closes : isNumberChar close = false)
    (texts : List (List Char)) : Delimited (writeRest style close texts) := by
  cases texts with
  | nil => exact delimited_cons closes
  | cons text texts => exact delimited_cons (by decide)

theorem writeRest_injective {style : JsonStyle} {close : Char} {P : List Char → Prop}
    (free : PrefixFree P) (closes : isNumberChar close = false) (notComma : close ≠ ',') :
    ∀ {texts texts' : List (List Char)}, (∀ text ∈ texts, P text) → (∀ text ∈ texts', P text) →
      writeRest style close texts = writeRest style close texts' → texts = texts'
  | [], [], _, _, _ => rfl
  | [], _ :: _, _, _, same => absurd (List.cons.inj same).1 notComma
  | _ :: _, [], _, _, same => absurd (List.cons.inj same).1.symm notComma
  | text :: texts, text' :: texts', all, all', same => by
      simp only [writeRest, List.cons.injEq, List.append_assoc, true_and] at same
      have parts := List.append_cancel_left same
      obtain ⟨rfl, rest⟩ := free _ _ _ _ (all text List.mem_cons_self)
        (all' text' List.mem_cons_self) (delimited_writeRest closes texts)
        (delimited_writeRest closes texts') parts
      rw [writeRest_injective free closes notComma
        (fun text member => all text (List.mem_cons_of_mem _ member))
        (fun text member => all' text (List.mem_cons_of_mem _ member)) rest]

theorem writeSequence_injective {style : JsonStyle} {opening close : Char} {P : List Char → Prop}
    (free : PrefixFree P) (closes : isNumberChar close = false) (notComma : close ≠ ',')
    (starts : ∀ text, P text → ∃ c rest, text = c :: rest ∧ c ≠ close)
    {texts texts' : List (List Char)} (all : ∀ text ∈ texts, P text)
    (all' : ∀ text ∈ texts', P text)
    (same : writeSequence style opening close texts = writeSequence style opening close texts') :
    texts = texts' := by
  cases texts with
  | nil =>
      cases texts' with
      | nil => rfl
      | cons text' texts' =>
          obtain ⟨c, rest, rfl, different⟩ := starts text' (all' text' List.mem_cons_self)
          simp only [writeSequence, List.cons_append, List.cons.injEq, true_and] at same
          exact absurd same.1.symm different
  | cons text texts =>
      cases texts' with
      | nil =>
          obtain ⟨c, rest, rfl, different⟩ := starts text (all text List.mem_cons_self)
          simp only [writeSequence, List.cons_append, List.cons.injEq, true_and] at same
          exact absurd same.1 different
      | cons text' texts' =>
          simp only [writeSequence, List.cons.injEq, true_and] at same
          obtain ⟨rfl, rest⟩ := free _ _ _ _ (all text List.mem_cons_self)
            (all' text' List.mem_cons_self) (delimited_writeRest closes texts)
            (delimited_writeRest closes texts') same
          rw [writeRest_injective free closes notComma
            (fun text member => all text (List.mem_cons_of_mem _ member))
            (fun text member => all' text (List.mem_cons_of_mem _ member)) rest]

/-! ### Printing once more -/

theorem starts_readsBack (text : List Char) (reads : ∃ value, ReadsBack text value) :
    ∃ c rest, text = c :: rest ∧ c ≠ ']' := by
  obtain ⟨_, ⟨c, rest, same, _, notClose, _⟩, _⟩ := reads
  exact ⟨c, rest, same, notClose⟩

theorem readsBack_of_written {style : JsonStyle} {items : List PyVal} {texts : List (List Char)}
    (related : List.Forall₂ (fun item text => write style item = .ok text) items texts) :
    ∀ text ∈ texts, ∃ value, ReadsBack text value := by
  intro text member
  obtain ⟨item, written⟩ := forall₂_left related.flip text member
  exact ⟨reread item, (write_reread style item text written).1⟩

theorem list_prints_same {style : JsonStyle} {items : List PyVal}
    (ih : ∀ item ∈ items, ∀ text, write style item = .ok text →
      (write style (reread item) = .ok text ↔ namesAscend item = true))
    {text : List Char} (written : write style (.list items) = .ok text) :
    write style (reread (.list items)) = .ok text ↔ namesAscend (.list items) = true := by
  rw [write] at written
  split at written
  · rename_i texts isWritten
    cases written
    have related := writeItems_forall₂.1 isWritten
    have alike := (List.forall₂_and_left _ _).2 ⟨ih, related⟩
    rw [namesAscend, namesAscendItems_eq_true, reread, rereadItems_eq_map]
    constructor
    · intro again
      rw [write] at again
      split at again
      · rename_i texts' isWritten'
        have related' := writeItems_forall₂.1 isWritten'
        obtain rfl : texts' = texts :=
          writeSequence_injective prefixFree_readsBack (by decide) (by decide) starts_readsBack
            (readsBack_of_written related') (readsBack_of_written related) (Except.ok.inj again)
        have ascend := List.Forall₂.mp (S := fun item _ => namesAscend item = true)
          (fun item text both again => (both.1 text both.2).1 again) alike
          (List.forall₂_map_left_iff.1 related')
        exact fun item member => (forall₂_left ascend item member).elim fun _ ascends => ascends
      · cases again
    · intro ascend
      have again : List.Forall₂ (fun item text => write style item = .ok text)
          (items.map reread) texts := by
        rw [List.forall₂_map_left_iff]
        refine ((List.forall₂_and_left _ _).2 ⟨ascend, alike⟩).imp ?_
        exact fun item text all => (all.2.1 text all.2.2).2 all.1
      rw [write, writeItems_forall₂.2 again]
  · cases written

theorem memberText_of_written {style : JsonStyle} {fields : List (PyKey × PyVal)}
    {written : List (PyKey × List Char)}
    (related : List.Forall₂ (WrittenField style) fields written) :
    ∀ text ∈ written.map (writeMember style), MemberText style text := by
  refine List.forall_mem_map.2 fun part member => ?_
  obtain ⟨field, _, isText⟩ := forall₂_left related.flip part member
  exact ⟨part.1, part.2, reread field.2, rfl, (write_reread style field.2 part.2 isText).1⟩

theorem starts_memberText {style : JsonStyle} (text : List Char) (isMember : MemberText style text) :
    ∃ c rest, text = c :: rest ∧ c ≠ '}' := by
  obtain ⟨key, text, _, rfl, _⟩ := isMember
  exact ⟨'"', _, rfl, by decide⟩

/-- Two dicts are written alike exactly if their members are, one by one. -/
theorem members_of_same_text {style : JsonStyle} {fields fields' : List (PyKey × PyVal)}
    {written written' : List (PyKey × List Char)}
    (related : List.Forall₂ (WrittenField style) fields written)
    (related' : List.Forall₂ (WrittenField style) fields' written')
    (same : writeSequence style '{' '}' (written.map (writeMember style)) =
      writeSequence style '{' '}' (written'.map (writeMember style))) :
    List.Forall₂ (fun field field' => field.1.memberName = field'.1.memberName ∧
      ∃ text, write style field.2 = .ok text ∧ write style field'.2 = .ok text) fields fields' := by
  have texts : written.map (writeMember style) = written'.map (writeMember style) :=
    writeSequence_injective (prefixFree_member style) (by decide) (by decide) starts_memberText
      (memberText_of_written related) (memberText_of_written related') same
  rw [← List.forall₂_eq_eq_eq, List.forall₂_map_left_iff, List.forall₂_map_right_iff] at texts
  refine (forall₂_chain (forall₂_chain related texts) related'.flip).imp ?_
  rintro ⟨key, value⟩ ⟨key', value'⟩ ⟨⟨_, text'⟩, ⟨⟨_, text⟩, ⟨rfl, isText⟩, alike⟩, rfl, isText'⟩
  have ended := congrArg (· ++ []) alike
  obtain ⟨names, rfl, _⟩ := writeMember_cancel (write_reread style value text isText).1
    (write_reread style value' text' isText').1 delimited_nil delimited_nil ended
  exact ⟨names, text, isText, isText'⟩

theorem dict_prints_same {style : JsonStyle} {fields : List (PyKey × PyVal)}
    (ih : ∀ field ∈ fields, ∀ text, write style field.2 = .ok text →
      (write style (reread field.2) = .ok text ↔ namesAscend field.2 = true))
    {text : List Char} (written : write style (.dict fields) = .ok text) :
    write style (reread (.dict fields)) = .ok text ↔ namesAscend (.dict fields) = true := by
  obtain ⟨sorted, texts, sorts, writes, rfl⟩ := write_dict_ok written
  have inside : ∀ field, field ∈ sorted ↔ field ∈ fields := fun field =>
    (sortFields_perm sorts).mem_iff
  let renamed : List (PyKey × PyVal) :=
    sorted.map fun field => (.str field.1.memberName, reread field.2)
  have members : reread (.dict fields) =
      ofMembers (renamed.map fun field => (field.1.text, field.2)) := by
    rw [reread, rereadFields_eq_map, sortFields_map reread sorts]
    simp only [renamed, List.map_map]
    rfl
  rw [namesAscend, Bool.and_eq_true, namesAscendFields_eq_true, sorts, decide_eq_true_eq,
    List.pairwise_map]
  have ordered : sorted.Pairwise (fun a b => a.1.memberName < b.1.memberName) →
      AscendingKeys renamed := fun ascending =>
    ⟨List.forall_mem_map.2 fun _ _ => rfl, List.pairwise_map.2 ascending⟩
  constructor
  · intro again
    have json := (write_reread style (.dict fields) _ written).2
    rw [members] at again json
    obtain ⟨parsed, isParsed⟩ : ∃ parsed,
        ofMembers (renamed.map fun field => (field.1.text, field.2)) = .dict parsed := ⟨_, rfl⟩
    rw [isParsed] at again json
    simp only [isJson, Bool.and_eq_true, decide_eq_true_eq, List.all_eq_true] at json
    have inOrder : AscendingKeys parsed := json.1
    obtain ⟨sorted', _, sorts', writes', same⟩ := write_dict_ok again
    obtain rfl : sorted' = parsed :=
      Except.ok.inj (sorts'.symm.trans (sortFields_ascending inOrder))
    have alike := members_of_same_text writes writes' same
    have names : sorted.map (·.1.memberName) = sorted'.map (·.1.memberName) := by
      rw [← List.forall₂_eq_eq_eq, List.forall₂_map_left_iff, List.forall₂_map_right_iff]
      exact alike.imp fun _ _ both => both.1
    have ascending : sorted.Pairwise fun a b => a.1.memberName < b.1.memberName := by
      have ascending' : (sorted'.map (·.1.memberName)).Pairwise (· < ·) := by
        refine List.pairwise_map.2 (inOrder.2.imp_of_mem fun {a b} inA inB less => ?_)
        rwa [PyKey.memberName_text (inOrder.1 a inA), PyKey.memberName_text (inOrder.1 b inB)]
      rw [← names] at ascending'
      exact List.pairwise_map.1 ascending'
    refine ⟨ascending, fun field member => ?_⟩
    -- the dict that was read has the members of the printed one, in the same order
    obtain rfl : renamed = sorted' :=
      PyVal.dict.inj ((ofMembers_ascending (ordered ascending)).symm.trans isParsed)
    obtain ⟨text, isText, isText'⟩ := (List.forall₂_same.1 (List.forall₂_map_right_iff.1 alike)
      field ((inside field).2 member)).2
    exact (ih field member text isText).1 isText'
  · rintro ⟨ascending, nested⟩
    have ordered := ordered ascending
    rw [members, ofMembers_ascending ordered, @write_ascending style _ (texts.map
      fun text => (.str text.1.memberName, text.2)) ordered]
    · rw [List.map_map]
      rfl
    · rw [List.forall₂_map_left_iff, List.forall₂_map_right_iff]
      have alike := (List.forall₂_and_left _ _).2
        ⟨fun field member => And.intro (ih field ((inside field).1 member))
          (nested field ((inside field).1 member)), writes⟩
      refine alike.imp fun field text all => ⟨?_, (all.1.1 text.2 all.2.2).2 all.1.2⟩
      rw [all.2.1]

/-- The value read from a printed text is printed as the same text again exactly if in every dict
the names of the members ascend in the order of the sorted keys. -/
theorem write_reread_iff (style : JsonStyle) (value : PyVal) :
    ∀ text, write style value = .ok text →
      (write style (reread value) = .ok text ↔ namesAscend value = true) := by
  induction value using PyVal.induction with
  | leaf value notDict notList =>
      intro text written
      rw [reread_leaf notDict notList]
      refine iff_of_true written ?_
      cases value with
      | list items => exact absurd rfl (notList items)
      | dict fields => cases notDict
      | _ => rfl
  | list items ih => exact fun text written => list_prints_same ih written
  | dict fields ih => exact fun text written => dict_prints_same ih written

theorem dumps_eq_ok {style : JsonStyle} {value : PyVal} {text : String} :
    dumps style value = .ok text ↔ write style value = .ok text.toList := by
  rw [dumps]
  cases write style value with
  | error exc => simp [Except.map]
  | ok chars => simp [Except.map, ← String.toList_inj]

theorem isJson_reread {style : JsonStyle} {value : PyVal} {text : String}
    (written : dumps style value = .ok text) : isJson (reread value) = true :=
  (write_reread style value _ (dumps_eq_ok.1 written)).2

/-- `json.loads` returns the reread value for every text of `json.dumps`. -/
theorem loads_of_dumps {style : JsonStyle} {value : PyVal} {text : String}
    (written : dumps style value = .ok text) : loads text = .ok (reread value) := by
  obtain ⟨starts, reads⟩ := (write_reread style value _ (dumps_eq_ok.1 written)).1
  have read := reads (text.toList.length + 1) [] (by omega) delimited_nil
  have visible := dropSpaces_value starts []
  rw [List.append_nil] at read visible
  rw [loads, visible, read]
  rfl

/-- The value read from a text of `json.dumps` is printed as that text exactly if the names ascend. -/
theorem dumps_reread_iff {style : JsonStyle} {value : PyVal} {text : String}
    (written : dumps style value = .ok text) :
    dumps style (reread value) = .ok text ↔ namesAscend value = true := by
  rw [dumps_eq_ok]
  exact write_reread_iff style value _ (dumps_eq_ok.1 written)

/-- What one style accepts every style accepts. -/
theorem write_style {style : JsonStyle} (style' : JsonStyle) (value : PyVal) :
    ∀ text, write style value = .ok text → ∃ text', write style' value = .ok text' := by
  induction value using PyVal.induction with
  | leaf value notDict notList =>
      intro text written
      obtain ⟨text', written', _⟩ :=
        write_readsBack style' value (isJson_leaf notDict notList written)
      exact ⟨text', written'⟩
  | list items ih =>
      intro text written
      rw [write] at written
      split at written
      · rename_i texts isWritten
        have related := (List.forall₂_and_left _ _).2 ⟨ih, writeItems_forall₂.1 isWritten⟩
        obtain ⟨texts', again⟩ := exists_forall₂ fun item member =>
          (forall₂_left related item member).elim fun text both => both.1 text both.2
        exact ⟨_, by rw [write, writeItems_forall₂.2 again]⟩
      · cases written
  | dict fields ih =>
      intro text written
      rw [write] at written
      split at written
      · rename_i texts isWritten
        split at written
        · rename_i sorted sorts
          have related := writeFields_forall₂.1 isWritten
          have alike := (List.forall₂_and_left _ _).2 ⟨ih, related⟩
          obtain ⟨texts', again⟩ := @exists_forall₂ _ _ (WrittenField style') fields fun field member =>
            (forall₂_left alike field member).elim fun text both =>
              (both.1 text.2 both.2.2).elim fun text' isText => ⟨(field.1, text'), rfl, isText⟩
          obtain ⟨sorted', sorts', _⟩ := sortFields_related
            (fun _ _ same => same.elim fun _ both => both.1.1.symm.trans both.2.1)
            (forall₂_chain related.flip again) sorts
          refine ⟨writeSequence style' '{' '}' (sorted'.map (writeMember style')), ?_⟩
          rw [write, writeFields_forall₂.2 again]
          simp only [sorts']
        · cases written
      · cases written

theorem dumps_style {style : JsonStyle} (style' : JsonStyle) {value : PyVal} {text : String}
    (written : dumps style value = .ok text) : ∃ text', dumps style' value = .ok text' := by
  obtain ⟨chars, written'⟩ := write_style style' value _ (dumps_eq_ok.1 written)
  exact ⟨String.ofList chars, by rw [dumps, written']; rfl⟩

/-! ### Members in any order -/

mutual

/-- A JSON value whose members stand in any order. -/
def isPlain : PyVal → Bool
  | .list items => isPlainItems items
  | .dict fields => fields.all (fun field => field.1.isStr) && isPlainFields fields
  | .object _ => false
  | _ => true

def isPlainItems : List PyVal → Bool
  | [] => true
  | item :: rest => isPlain item && isPlainItems rest

def isPlainFields : List (PyKey × PyVal) → Bool
  | [] => true
  | (_, value) :: rest => isPlain value && isPlainFields rest

end

theorem isPlainItems_iff : ∀ {items : List PyVal},
    isPlainItems items = true ↔ ∀ item ∈ items, isPlain item = true
  | [] => by simp [isPlainItems]
  | item :: items => by simp [isPlainItems, @isPlainItems_iff items]

theorem isPlainFields_iff : ∀ {fields : List (PyKey × PyVal)},
    isPlainFields fields = true ↔ ∀ field ∈ fields, isPlain field.2 = true
  | [] => by simp [isPlainFields]
  | field :: fields => by
      rw [isPlainFields, Bool.and_eq_true, @isPlainFields_iff fields, List.forall_mem_cons]

theorem isPlain_list {items : List PyVal} :
    isPlain (.list items) = true ↔ ∀ item ∈ items, isPlain item = true := isPlainItems_iff

theorem isPlain_dict {fields : List (PyKey × PyVal)} : isPlain (.dict fields) = true ↔
    (∀ field ∈ fields, field.1.isStr = true) ∧ ∀ field ∈ fields, isPlain field.2 = true := by
  rw [isPlain, Bool.and_eq_true, List.all_eq_true, isPlainFields_iff]

theorem isPlain_of_isJson (value : PyVal) : isJson value = true → isPlain value = true := by
  induction value using PyVal.induction with
  | leaf value notDict notList =>
      intro json
      cases value with
      | list items => exact absurd rfl (notList items)
      | dict fields => cases notDict
      | object className => cases json
      | _ => rfl
  | list items ih =>
      intro json
      rw [isPlain_list]
      intro item member
      exact ih item member (isJsonItems_iff.1 json item member)
  | dict fields ih =>
      intro json
      obtain ⟨⟨strings, -⟩, values⟩ := isJson_dict.1 json
      exact isPlain_dict.2 ⟨strings, fun field member => ih field member (values field member)⟩

/-- A JSON value is printed in every style. -/
theorem write_isPlain (style : JsonStyle) (value : PyVal) :
    isPlain value = true → ∃ text, write style value = .ok text := by
  induction value using PyVal.induction with
  | leaf value notDict notList =>
      intro plain
      cases value with
      | list items => exact absurd rfl (notList items)
      | dict fields => cases notDict
      | object className => cases plain
      | bool value => cases value <;> exact ⟨_, rfl⟩
      | _ => exact ⟨_, rfl⟩
  | list items ih =>
      intro plain
      obtain ⟨texts, written⟩ := exists_forall₂ fun item member =>
        ih item member (isPlain_list.1 plain item member)
      exact ⟨_, by rw [write, writeItems_forall₂.2 written]⟩
  | dict fields ih =>
      intro plain
      obtain ⟨strings, values⟩ := isPlain_dict.1 plain
      have each : ∀ field ∈ fields, ∃ written, WrittenField style field written := by
        intro field member
        obtain ⟨text, written⟩ := ih field member (values field member)
        exact ⟨(field.1, text), rfl, written⟩
      obtain ⟨written, related⟩ := exists_forall₂ each
      have keyed : written.all (fun field => field.1.isStr) = true := by
        rw [← all_keys (fun _ _ same => same.1) related]
        exact List.all_eq_true.2 strings
      have sorts : sortFields written =
          .ok (written.insertionSort fun a b => a.1.text ≤ b.1.text) := if_pos keyed
      rw [write, writeFields_forall₂.2 related]
      simp only [sorts]
      exact ⟨_, rfl⟩

theorem dumps_isPlain (style : JsonStyle) {value : PyVal} (plain : isPlain value = true) :
    ∃ text, dumps style value = .ok text := by
  obtain ⟨text, written⟩ := write_isPlain style value plain
  exact ⟨String.ofList text, by rw [dumps, written]; rfl⟩

end PreActive.Python

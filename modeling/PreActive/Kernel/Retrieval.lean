/-
Module: PreActive.Kernel.Retrieval
Purpose: What `search_memories` selects: the best memories of a shortlist by salience, and exactly
  when these are the best memories of the whole table.
Trusted boundary: none
Main exports:
  matchCount, memoryRank, Db.rankIndex, Db.shortlist, Outmatched, SelectsBest, search_best
-/
import PreActive.Foundation.Ranking
import PreActive.Kernel.Budget

namespace PreActive.Kernel

open PreActive.Foundation PreActive.Python

/-! ### Ranks -/

/-- The number of query terms that occur in a memory. -/
def matchCount (host : Host) (query : String) (row : MemoryRow) : Nat :=
  (((pySplit query).map host.lower).filter fun term =>
    contains (host.lower row.content) term).length

/-- `(salience, created_at)` -/
def MemoryRow.standing (row : MemoryRow) : ℚ ×ₗ Time := toLex (row.salience, row.createdAt)

/-- `(matches, salience, created_at)` -/
def memoryRank (host : Host) (query : String) (row : MemoryRow) : ℕ ×ₗ ℚ ×ₗ Time :=
  scoredKey (matchCount host query) MemoryRow.standing row

/-- `memories_rank_idx`: the memories by salience and then by age, the greatest first. -/
def Db.rankIndex (db : Db) : List MemoryRow := descending MemoryRow.standing db.memories.rows

/-- The entries of the index that a search for `limit` memories reads. -/
def Db.shortlist (db : Db) (limit : Int) : List MemoryRow := db.rankIndex.take (limit * 4).toNat

/-- The entries of the index that it does not read. -/
def Db.unread (db : Db) (limit : Int) : List MemoryRow := db.rankIndex.drop (limit * 4).toNat

theorem MemoryRow.before_iff (a b : MemoryRow) : a.before b = true ↔ b.standing ≤ a.standing := by
  rw [standing, standing, Prod.Lex.toLex_le_toLex, before]
  simp only [Bool.or_eq_true, Bool.and_eq_true, decide_eq_true_eq]
  rw [eq_comm (a := b.salience)]

theorem scoredBefore_iff {host : Host} {query : String} (a b : MemoryRow) :
    scoredBefore (matchCount host query a, a) (matchCount host query b, b) = true ↔
      memoryRank host query b ≤ memoryRank host query a := by
  rw [memoryRank, memoryRank, scoredKey, scoredKey, Prod.Lex.toLex_le_toLex,
    ← MemoryRow.before_iff, scoredBefore, MemoryRow.before]
  simp only [Bool.or_eq_true, Bool.and_eq_true, decide_eq_true_eq]
  rw [eq_comm (a := matchCount host query b)]

/-- `search_memories` sorts the rows it read by their ranks. -/
theorem rankMemories_eq (host : Host) (query : String) {limit : Int} (positive : 1 ≤ limit)
    (rows : List MemoryRow) :
    rankMemories host query limit rows =
      (descending (memoryRank host query) rows).take limit.toNat := by
  have sorted := List.map_insertionSort
    (r := fun a b => memoryRank host query b ≤ memoryRank host query a)
    (s := fun a b => scoredBefore a b = true) (fun row => (matchCount host query row, row)) rows
    fun a _ b _ => (scoredBefore_iff a b).symm
  have ranked : (rows.map fun row => (matchCount host query row, row)).insertionSort
      (fun a b => scoredBefore a b = true) = (descending (memoryRank host query) rows).map fun row =>
        (matchCount host query row, row) := sorted.symm
  change pySliceTo limit (((rows.map fun row => (matchCount host query row, row)).insertionSort
    fun a b => scoredBefore a b = true).map Prod.snd) = _
  rw [ranked, List.map_map, pySliceTo, if_neg (by omega)]
  exact congrArg (List.take limit.toNat) (List.map_id _)

/-- The statement of a search reads the shortlist. -/
theorem selected_eq_shortlist (db : Db) {limit : Int} (positive : 1 ≤ limit) :
    sqlLimit (max (limit * 4) limit)
      (db.memories.rows.insertionSort fun a b => MemoryRow.before a b = true) =
        db.shortlist limit := by
  have wide : max (limit * 4) limit = limit * 4 := max_eq_left (by omega)
  have indexed : (db.memories.rows.insertionSort fun a b => MemoryRow.before a b = true) =
      db.rankIndex := by
    have sorted := List.map_insertionSort (r := fun a b => MemoryRow.before a b = true)
      (s := fun a b : MemoryRow => b.standing ≤ a.standing) id db.memories.rows
      fun a _ b _ => MemoryRow.before_iff a b
    rwa [List.map_id, List.map_id] at sorted
  rw [wide, indexed, sqlLimit, if_neg (by omega), Db.shortlist]

/-- A search finds the best memories of its shortlist. -/
theorem memoriesFound_isTop (host : Host) (world : World) (query : String) {limit : Int}
    (positive : 1 ≤ limit) :
    IsTop (memoryRank host query) limit.toNat (world.db.shortlist limit)
      (memoriesFound host world query limit) := by
  rw [memoriesFound, selected_eq_shortlist world.db positive, rankMemories_eq host query positive]
  exact isTop_take _ _ _

/-! ### The cut -/

section Cut

variable {host : Host} {query : String} {limit : Int} {db : Db}

/-- Every memory beyond the shortlist has as many memories in it as are asked for that match at
least as many query terms. -/
def Outmatched (host : Host) (query : String) (limit : Int) (db : Db) : Prop :=
  ∀ out ∈ db.unread limit, limit.toNat ≤
    (db.shortlist limit).countP fun row => matchCount host query out ≤ matchCount host query row

instance : Decidable (Outmatched host query limit db) :=
  inferInstanceAs (Decidable (∀ out ∈ db.unread limit, _))

/-- The index is the shortlist and what lies beyond it. -/
theorem shortlist_append : (db.shortlist limit ++ db.unread limit).Perm db.memories.rows := by
  rw [Db.shortlist, Db.unread, List.take_append_drop]
  exact perm_descending _ _

/-- No memory beyond the shortlist is more salient than one of it. -/
theorem shortlist_cut :
    ∀ kept ∈ db.shortlist limit, ∀ out ∈ db.unread limit, out.standing ≤ kept.standing := by
  have ordered := pairwise_descending MemoryRow.standing db.memories.rows
  rw [← List.take_append_drop (limit * 4).toNat (descending _ _), List.pairwise_append] at ordered
  exact ordered.2.2

/-- Where memories lie beyond the shortlist, it holds as many as are asked for. -/
theorem shortlist_filled (positive : 1 ≤ limit) (some : db.unread limit ≠ []) :
    limit.toNat ≤ (db.shortlist limit).length := by
  rw [Db.unread, Ne, List.drop_eq_nil_iff, not_le] at some
  rw [Db.shortlist, List.length_take]
  omega

/-- In a small table nothing lies beyond the shortlist. -/
theorem outmatched_of_small (small : (db.memories.rows.length : Int) ≤ limit * 4) :
    Outmatched host query limit db := by
  intro out isOut
  have indexed : db.rankIndex.length = db.memories.rows.length := (perm_descending _ _).length_eq
  have none : db.unread limit = [] := List.drop_eq_nil_iff.2 (by omega)
  cases none ▸ isOut

/-- Without query terms the shortlist holds the best memories. -/
theorem outmatched_of_no_terms (positive : 1 ≤ limit) (blank : pySplit query = []) :
    Outmatched host query limit db := by
  intro out isOut
  have none : ∀ row, matchCount host query row = 0 := fun row => by simp [matchCount, blank]
  simp only [none, le_refl, decide_true, List.countP_true]
  exact shortlist_filled positive (List.ne_nil_of_mem isOut)

end Cut

/-- A search finds the best memories of the table exactly if those beyond its shortlist are
outmatched. -/
theorem memoriesFound_whole (host : Host) (world : World) (query : String) {limit : Int}
    (positive : 1 ≤ limit) :
    IsTop (memoryRank host query) limit.toNat world.db.memories.rows
        (memoriesFound host world query limit) ↔
      Outmatched host query limit world.db :=
  (memoriesFound_isTop host world query positive).shortlist_iff shortlist_append shortlist_cut
    (shortlist_filled positive)

/-! ### The search -/

/-- The selected memories: as many as there are, the best of the shortlist in the order of their
ranks, and the best of the whole table exactly if the memories beyond the shortlist are
outmatched. -/
structure SelectsBest (host : Host) (query : String) (limit : Int) (db : Db)
    (rows : List MemoryRow) : Prop where
  count : rows.length = min limit.toNat db.memories.rows.length
  ordered : rows.Pairwise fun a b => memoryRank host query b ≤ memoryRank host query a
  shortlisted : IsTop (memoryRank host query) limit.toNat (db.shortlist limit) rows
  whole : IsTop (memoryRank host query) limit.toNat db.memories.rows rows ↔
    Outmatched host query limit db
  agrees : rows.map (memoryRank host query) =
      ((descending (memoryRank host query) db.memories.rows).take limit.toNat).map
        (memoryRank host query) ↔
    Outmatched host query limit db

/-- A search selects the best memories of the shortlist, and nothing else can be lost. -/
theorem search_best (host : Host) (world : World) (query : String) (limit : Int)
    (positive : 1 ≤ limit) :
    ∃ rows, (searchMemories host query limit).run host world = (.ok rows, world) ∧
      SelectsBest host query limit world.db rows := by
  refine ⟨_, run_searchMemories host world query limit, ?_⟩
  have top := memoriesFound_isTop host world query positive
  have whole := memoriesFound_whole host world query positive
  obtain ⟨spare, perm, _⟩ := top.best
  have parts : (memoriesFound host world query limit ++ (spare ++ world.db.unread limit)).Perm
      world.db.memories.rows := by
    rw [← List.append_assoc]
    exact (perm.append_right _).trans shortlist_append
  exact
    { count := top.count_of_part shortlist_append (shortlist_filled positive)
      ordered := top.ordered
      shortlisted := top
      whole := whole
      agrees := (isTop_iff_keys parts).symm.trans whole }

theorem search_best_small :
    ∃ rows, (searchMemories plainHost "task" 8).run plainHost notedWorld = (.ok rows, notedWorld) ∧
      SelectsBest plainHost "task" 8 notedWorld.db rows :=
  search_best plainHost notedWorld "task" 8 (by decide)

/-- A store in which four salient memories stand before the one about the key. -/
def crowdedWorld : World :=
  { World.initial with db := { Db.empty with
      memories := ⟨[⟨"a", "note", "tea", 1, 0⟩, ⟨"b", "note", "tea", 1, 1⟩,
        ⟨"c", "note", "tea", 1, 2⟩, ⟨"d", "note", "tea", 1, 3⟩,
        ⟨"e", "fact", "the key is under the mat", 0, 4⟩], by decide⟩ } }

/-- A search for the key does not find it. -/
theorem search_misses_match :
    ∃ rows, (searchMemories plainHost "key" 1).run plainHost crowdedWorld =
        (.ok rows, crowdedWorld) ∧
      ¬ IsTop (memoryRank plainHost "key") 1 crowdedWorld.db.memories.rows rows := by
  refine ⟨_, run_searchMemories plainHost crowdedWorld "key" 1, fun top => ?_⟩
  have outmatched := (@memoriesFound_whole plainHost crowdedWorld "key" 1 (by decide)).1 top
  have notOutmatched : ¬ Outmatched plainHost "key" 1 crowdedWorld.db := by decide +kernel
  exact notOutmatched outmatched

end PreActive.Kernel

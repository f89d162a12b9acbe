import Mathlib.Data.List.Basic
import Mathlib.Logic.Function.Basic
import Mathlib.Data.Set.Insert

/-!
# Radix trees in a store of pages

A page has one entry for each index; an entry may name a child page.  A path is
a list of indices, followed from a root page.  A tree of depth `depth` has its
tables at the paths of length at most `depth`, and its leaf entries in the
tables at the paths of that length.

What matters for updates is that no page is the table of two paths.  Then a
write to one table is seen by no walk that does not go through it.
-/

namespace RCoreOS.Lib.RadixTree

open List Function Option

variable {Page Index Entry : Type}

/-- Follow a path from a page. -/
def walk (child : Entry → Option Page) (memory : Page → Index → Entry)
    (page : Page) : List Index → Option Page
  | [] => some page
  | index :: rest =>
    (child (memory page index)).bind fun next => walk child memory next rest

/-- The entry at an index of the table at a path. -/
def lookup (child : Entry → Option Page) (memory : Page → Index → Entry)
    (root : Page) (path : List Index) (index : Index) : Option Entry :=
  (walk child memory root path).map fun page => memory page index

/-- Change one entry. -/
def setEntry [DecidableEq Page] [DecidableEq Index]
    (memory : Page → Index → Entry) (page : Page) (index : Index)
    (entry : Entry) : Page → Index → Entry :=
  Function.update memory page (Function.update (memory page) index entry)

variable {child : Entry → Option Page} {memory changed : Page → Index → Entry}
  {root page : Page} {path : List Index} {index : Index} {entry : Entry}

theorem walk_append (front rest : List Index) :
    walk child memory root (front ++ rest) =
      (walk child memory root front).bind fun next =>
        walk child memory next rest := by
  induction front generalizing root with
  | nil => rfl
  | cons head tail induction =>
    rw [cons_append, walk, walk, bind_assoc]
    congr 1
    funext next
    exact induction

/-- Below an entry without a child there is nothing. -/
theorem walk_missing {here rest : List Index}
    (walked : walk child memory root here = some page)
    (missing : child (memory page index) = none) :
    walk child memory root (here ++ index :: rest) = none := by
  rw [walk_append, walked, bind_some, walk, missing]
  rfl

/-- A walk reads the entries on its path and no others. -/
theorem walk_frame
    (same :
      ∀ front next rest table, path = front ++ next :: rest →
        walk child memory root front = some table →
          changed table next = memory table next) :
    walk child changed root path = walk child memory root path := by
  induction path generalizing root with
  | nil => rfl
  | cons head tail induction =>
    rw [walk, walk, same [] head tail root rfl rfl]
    cases found : child (memory root head) with
    | none => rfl
    | some next =>
      refine induction fun front middle rest table split walked => ?_
      refine same (head :: front) middle rest table (by rw [split]; rfl) ?_
      rw [walk, found]
      exact walked

/-- The tables at the paths up to a depth are different pages. -/
structure Tree (child : Entry → Option Page) (memory : Page → Index → Entry)
    (root : Page) (depth : Nat) (tables : Set Page) : Prop where
  mem_tables :
    ∀ {path page}, path.length ≤ depth →
      walk child memory root path = some page → page ∈ tables
  path_unique :
    ∀ {first second page}, first.length ≤ depth → second.length ≤ depth →
      walk child memory root first = some page →
        walk child memory root second = some page → first = second

variable {depth : Nat} {tables : Set Page}

/-- One page without children is a tree. -/
theorem Tree.single (childless : ∀ index, child (memory root index) = none) :
    Tree child memory root depth {root} := by
  have onlyRoot :
      ∀ {path page}, walk child memory root path = some page →
        path = [] ∧ page = root := by
    intro path page walked
    cases path with
    | nil =>
      cases walked
      exact ⟨rfl, rfl⟩
    | cons head tail =>
      rw [walk, childless head] at walked
      cases walked
  constructor
  · intro path page _ walked
    exact (onlyRoot walked).2
  · intro first second page _ _ firstWalk secondWalk
    rw [(onlyRoot firstWalk).1, (onlyRoot secondWalk).1]

section

variable (tree : Tree child memory root depth tables)

include tree

/-- Walks do not see a change outside of the tables. -/
theorem Tree.walk_congr (same : ∀ table ∈ tables, changed table = memory table)
    (short : path.length ≤ depth) :
    walk child changed root path = walk child memory root path := by
  refine walk_frame fun front next rest table split walked => ?_
  have length := congrArg List.length split
  rw [length_append, length_cons] at length
  rw [same table (tree.mem_tables (by omega) walked)]

theorem Tree.of_walk {added : Set Page}
    (same :
      ∀ path, path.length ≤ depth →
        walk child changed root path = walk child memory root path)
    (more : tables ⊆ added) : Tree child changed root depth added where
  mem_tables short walked :=
    more (tree.mem_tables short (same _ short ▸ walked))
  path_unique firstShort secondShort firstWalk secondWalk :=
    tree.path_unique firstShort secondShort (same _ firstShort ▸ firstWalk)
      (same _ secondShort ▸ secondWalk)

section

variable (same : ∀ table ∈ tables, changed table = memory table)

include same

theorem Tree.congr :
    Tree child changed root depth tables :=
  tree.of_walk (fun _ => tree.walk_congr same) (fun _ => id)

theorem Tree.lookup_congr (short : path.length ≤ depth) :
    lookup child changed root path index =
      lookup child memory root path index := by
  rw [lookup, lookup, tree.walk_congr same short]
  cases walked : walk child memory root path with
  | none => rfl
  | some page =>
    rw [map_some, map_some, same page (tree.mem_tables short walked)]

end

end

/-! ## Changing an entry -/

section Updates

variable [DecidableEq Page] [DecidableEq Index]

theorem setEntry_self :
    setEntry memory page index entry page index = entry := by
  rw [setEntry, update_self, update_self]

theorem setEntry_of_page_ne {other : Page} (different : other ≠ page) :
    setEntry memory page index entry other = memory other :=
  update_of_ne different _ _

theorem setEntry_of_index_ne {other : Index} (different : other ≠ index) :
    setEntry memory page index entry page other = memory page other := by
  rw [setEntry, update_self, update_of_ne different]

variable {here : List Index}

section

variable (tree : Tree child memory root depth tables)

include tree

/-- A walk does not see a write to an entry that is not on its path. -/
theorem Tree.walk_setEntry (hereShort : here.length ≤ depth)
    (walked : walk child memory root here = some page)
    (short : path.length ≤ depth)
    (aside : ∀ rest, path ≠ here ++ index :: rest) :
    walk child (setEntry memory page index entry) root path =
      walk child memory root path := by
  refine walk_frame fun front next rest table split frontWalk => ?_
  have length := congrArg List.length split
  rw [length_append, length_cons] at length
  by_cases samePage : table = page
  · subst samePage
    have samePath : front = here :=
      tree.path_unique (by omega) hereShort frontWalk walked
    subst samePath
    refine setEntry_of_index_ne fun sameIndex => ?_
    subst sameIndex
    exact aside rest split
  · rw [setEntry_of_page_ne samePage]

section

variable (bottom : here.length = depth)
  (walked : walk child memory root here = some page)

include bottom walked

/-- No walk goes through a leaf entry. -/
theorem Tree.walk_setLeaf (short : path.length ≤ depth) :
    walk child (setEntry memory page index entry) root path =
      walk child memory root path := by
  refine tree.walk_setEntry (by omega) walked short fun rest split => ?_
  have length := congrArg List.length split
  rw [length_append, length_cons] at length
  omega

theorem Tree.setLeaf :
    Tree child (setEntry memory page index entry) root depth tables :=
  tree.of_walk (fun _ => tree.walk_setLeaf bottom walked) (fun _ => id)

theorem Tree.lookup_setLeaf_self :
    lookup child (setEntry memory page index entry) root here index =
      some entry := by
  rw [lookup, tree.walk_setLeaf bottom walked (by omega), walked,
    map_some, setEntry_self]

theorem Tree.lookup_setLeaf_of_ne {other : Index}
    (short : path.length ≤ depth) (different : path ≠ here ∨ other ≠ index) :
    lookup child (setEntry memory page index entry) root path other =
      lookup child memory root path other := by
  rw [lookup, lookup, tree.walk_setLeaf bottom walked short]
  cases found : walk child memory root path with
  | none => rfl
  | some table =>
    rw [map_some, map_some]
    by_cases samePage : table = page
    · subst samePage
      have samePath : path = here :=
        tree.path_unique short (by omega) found walked
      rcases different with differentPath | differentIndex
      · exact absurd samePath differentPath
      · rw [setEntry_of_index_ne differentIndex]
    · rw [setEntry_of_page_ne samePage]

end

end

/-! ## Adding a table -/

variable {fresh : Page} {blank : Entry}

variable {here : List Index}

section

variable (tree : Tree child memory root depth tables)
  (hereShort : here.length < depth)
  (walked : walk child memory root here = some page)

include tree hereShort walked

/-- What is below a new table: the table itself and nothing else. -/
theorem Tree.walk_link (outside : fresh ∉ tables)
    (blankPage : ∀ index, memory fresh index = blank)
    (childless : child blank = none) (points : child entry = some fresh)
    (rest : List Index) :
    walk child (setEntry memory page index entry) root
        (here ++ index :: rest) =
      if rest = [] then some fresh else none := by
  have different : fresh ≠ page := by
    rintro rfl
    exact outside (tree.mem_tables (by omega) walked)
  have hereWalk :
      walk child (setEntry memory page index entry) root here = some page := by
    rw [tree.walk_setEntry (by omega) walked (by omega), walked]
    intro rest split
    have length := congrArg List.length split
    rw [length_append, length_cons] at length
    omega
  rw [walk_append, hereWalk, bind_some, walk, setEntry_self, points, bind_some]
  cases rest with
  | nil => rfl
  | cons next rest =>
    rw [walk, setEntry_of_page_ne different, blankPage, childless]
    rfl

/-- A blank page outside of the tree becomes the table at a new path. -/
theorem Tree.link (outside : fresh ∉ tables)
    (blankPage : ∀ index, memory fresh index = blank)
    (childless : child blank = none) (points : child entry = some fresh) :
    Tree child (setEntry memory page index entry) root depth
      (insert fresh tables) := by
  -- a path either goes through the new entry or is walked as before
  have cases :
      ∀ {path found}, path.length ≤ depth →
        walk child (setEntry memory page index entry) root path = some found →
          (path = here ++ [index] ∧ found = fresh) ∨
            walk child memory root path = some found := by
    intro path found short changedWalk
    by_cases through : ∃ rest, path = here ++ index :: rest
    · obtain ⟨rest, rfl⟩ := through
      rw [tree.walk_link hereShort walked outside blankPage childless points] at changedWalk
      split at changedWalk
      · next last =>
          cases changedWalk
          rw [last]
          exact .inl ⟨rfl, rfl⟩
      · cases changedWalk
    · rw [tree.walk_setEntry (by omega) walked short
        fun rest split => through ⟨rest, split⟩] at changedWalk
      exact .inr changedWalk
  constructor
  · intro path found short changedWalk
    rcases cases short changedWalk with ⟨_, rfl⟩ | oldWalk
    · exact Set.mem_insert _ _
    · exact Set.mem_insert_of_mem _ (tree.mem_tables short oldWalk)
  · intro first second found firstShort secondShort firstWalk secondWalk
    rcases cases firstShort firstWalk with ⟨firstEq, rfl⟩ | firstOld
    · rcases cases secondShort secondWalk with ⟨secondEq, _⟩ | secondOld
      · rw [firstEq, secondEq]
      · exact absurd (tree.mem_tables secondShort secondOld) outside
    · rcases cases secondShort secondWalk with ⟨_, rfl⟩ | secondOld
      · exact absurd (tree.mem_tables firstShort firstOld) outside
      · exact tree.path_unique firstShort secondShort firstOld secondOld

/-- A new table changes no entry; it adds blank ones. -/
theorem Tree.lookup_link {other : Index}
    (missing : child (memory page index) = none) (outside : fresh ∉ tables)
    (blankPage : ∀ index, memory fresh index = blank)
    (childless : child blank = none) (points : child entry = some fresh)
    (bottom : path.length = depth) :
    lookup child (setEntry memory page index entry) root path other =
        lookup child memory root path other ∨
      (lookup child memory root path other = none ∧
        lookup child (setEntry memory page index entry) root path other =
          some blank) := by
  by_cases through : ∃ rest, path = here ++ index :: rest
  · obtain ⟨rest, rfl⟩ := through
    have different : fresh ≠ page := by
      rintro rfl
      exact outside (tree.mem_tables (by omega) walked)
    rw [lookup, lookup, walk_missing walked missing,
      tree.walk_link hereShort walked outside blankPage childless points]
    split
    · right
      rw [map_some, setEntry_of_page_ne different, blankPage]
      exact ⟨rfl, rfl⟩
    · exact .inl rfl
  · left
    have sameWalk :
        walk child (setEntry memory page index entry) root path =
          walk child memory root path :=
      tree.walk_setEntry (by omega) walked (by omega)
        fun rest split => through ⟨rest, split⟩
    rw [lookup, lookup, sameWalk]
    cases found : walk child memory root path with
    | none => rfl
    | some table =>
      have differentPage : table ≠ page := by
        rintro rfl
        have samePath := tree.path_unique (by omega) (by omega) found walked
        rw [samePath] at bottom
        omega
      rw [map_some, map_some, setEntry_of_page_ne differentPage]

end

end Updates

end RCoreOS.Lib.RadixTree

import MarketFeed.Issue
import Mathlib.Data.List.Induction
import Mathlib.Data.List.Nodup

/-!
# Sets of issues as lists

A code is added at the end of a set, and only if it is new. So however codes are added, a set has
all codes that were given as they occur first, and this is all there is to say about it: two sets
with the same codes are the same, and the list of a set that is made a set again gives the same set.
-/

namespace MarketFeed.IssueSet

variable {set : IssueSet} {code added : String}

/-- Sets with the same codes in the same order are the same. -/
@[ext] theorem ext {a b : IssueSet} (h : a.codes = b.codes) : a = b := by
  cases a
  cases b
  cases h
  rfl

/-! ## Lists without repetitions -/

/-- The last of some codes stands at the end, unless it is among the others. -/
theorem eraseDups_snoc (codes : List String) (code : String) :
    (codes ++ [code]).eraseDups = codes.eraseDups ++ if code ∈ codes then [] else [code] := by
  rw [List.eraseDups_append]
  by_cases h : code ∈ codes <;> simp [List.removeAll, List.eraseDups_cons, h]

/-- A list that repeats nothing is as it was. -/
theorem eraseDups_of_nodup {codes : List String} (h : codes.Nodup) : codes.eraseDups = codes := by
  induction codes using List.reverseRecOn with
  | nil => rfl
  | append_singleton codes code ih =>
    have hnew : code ∉ codes := fun hold => List.disjoint_of_nodup_append h hold (by simp)
    rw [eraseDups_snoc, ih h.of_append_left, if_neg hnew]

/-! ## Adding codes -/

/-- A code that is added stands at the end, unless it was there before. -/
theorem codes_insert (set : IssueSet) (code : String) :
    (set.insert code).codes = set.codes ++ if code ∈ set.codes then [] else [code] := by
  unfold insert
  split <;> simp [*]

/-- A code that was new to a set is its last one. -/
theorem getLast?_insert (h : added ∉ set.codes) :
    (set.insert added).codes.getLast? = some added := by
  simp [codes_insert, h]

/-- Codes after codes. -/
theorem insertAll_append (set : IssueSet) (codes more : List String) :
    set.insertAll (codes ++ more) = (set.insertAll codes).insertAll more :=
  List.foldl_append

/-- A set to which codes are added has all codes as they occur first. -/
theorem codes_insertAll (set : IssueSet) (codes : List String) :
    (set.insertAll codes).codes = (set.codes ++ codes).eraseDups := by
  induction codes using List.reverseRecOn with
  | nil => rw [List.append_nil, eraseDups_of_nodup set.nodup]; rfl
  | append_singleton codes code ih =>
    have hlast : set.insertAll (codes ++ [code]) = (set.insertAll codes).insert code :=
      set.insertAll_append codes [code]
    rw [hlast, codes_insert, ih, ← List.append_assoc, eraseDups_snoc]
    simp only [List.mem_eraseDups]

/-- The set of a list has its codes as they occur first. -/
theorem codes_ofList (codes : List String) : (ofList codes).codes = codes.eraseDups :=
  codes_insertAll empty codes

/-- A set is the set of its codes. -/
theorem ofList_codes (set : IssueSet) : ofList set.codes = set :=
  ext ((codes_ofList set.codes).trans (eraseDups_of_nodup set.nodup))

/-- A set holds the codes it held before and those that were added. -/
theorem mem_insertAll {codes : List String} :
    code ∈ (set.insertAll codes).codes ↔ code ∈ set.codes ∨ code ∈ codes := by
  rw [codes_insertAll, List.mem_eraseDups, List.mem_append]

/-- A set holds the codes it held before and the one that was added. -/
theorem mem_insert : code ∈ (set.insert added).codes ↔ code ∈ set.codes ∨ code = added := by
  have hone : set.insert added = set.insertAll [added] := rfl
  rw [hone, mem_insertAll, List.mem_singleton]

/-- The set of a list holds its codes. -/
theorem mem_ofList {codes : List String} : code ∈ (ofList codes).codes ↔ code ∈ codes := by
  rw [codes_ofList, List.mem_eraseDups]

end MarketFeed.IssueSet

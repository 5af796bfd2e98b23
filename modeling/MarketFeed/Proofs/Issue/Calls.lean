import MarketFeed.Proofs.Codec.Tick

/-!
# Putting codes into a set

Codes come into a set one by one or as lists, in calls of which each takes the set on from the one
before. Where one call ends and the next begins leaves no trace: what counts is all that was given,
in its order, and of it the first occurrences are kept. So adding two lists is adding the one after
the other, adding a list again adds nothing, and the list of a set makes the same set again, be it
taken from memory or from a document.
-/

namespace MarketFeed

open Json

/-- A call that puts codes into a set. -/
inductive IssueCall
  | insert (code : String)
  | insertAll (codes : List String)

namespace IssueCall

/-- The codes that a call gives. -/
def codes : IssueCall → List String
  | insert code => [code]
  | insertAll codes => codes

/-- The set after a call. -/
def perform (set : IssueSet) : IssueCall → IssueSet
  | insert code => (set.tryInsert code).2
  | insertAll codes => set.insertAll codes

end IssueCall

namespace IssueSet

/-- The set after calls in a row. -/
def after (set : IssueSet) (calls : List IssueCall) : IssueSet := calls.foldl IssueCall.perform set

/-! ## One code -/

/-- A code that a set holds changes nothing. -/
theorem insert_of_mem {set : IssueSet} {code : String} (h : code ∈ set.codes) :
    set.insert code = set := ext (by simp [codes_insert, h])

/-- Adding a code, and telling whether it was added, leaves what adding it leaves. -/
theorem tryInsert_snd (set : IssueSet) (code : String) :
    (set.tryInsert code).2 = set.insert code := by
  unfold tryInsert
  split
  · rename_i hold
    exact (insert_of_mem (by simpa [contains] using hold)).symm
  · rfl

/-- It is told that a code was added exactly if the set does not hold it. -/
theorem tryInsert_fst_iff_new {set : IssueSet} {code : String} :
    (set.tryInsert code).1 = true ↔ code ∉ set.codes := by
  unfold tryInsert
  split <;> simp_all [contains]

/-- It is told that a code was added exactly if it was put at the end. -/
theorem tryInsert_fst_iff_appended (set : IssueSet) (code : String) :
    (set.tryInsert code).1 = true ↔ (set.tryInsert code).2.codes = set.codes ++ [code] := by
  rw [tryInsert_fst_iff_new, tryInsert_snd, codes_insert, List.append_right_inj]
  by_cases h : code ∈ set.codes <;> simp [h]

/-! ## Lists of codes -/

/-- Codes that a set holds change nothing. -/
theorem insertAll_of_subset {set : IssueSet} {codes : List String}
    (h : ∀ code ∈ codes, code ∈ set.codes) : set.insertAll codes = set := by
  induction codes with
  | nil => rfl
  | cons code rest ih =>
    obtain ⟨hfirst, hrest⟩ := List.forall_mem_cons.mp h
    calc set.insertAll (code :: rest)
        = (set.insert code).insertAll rest := rfl
      _ = set.insertAll rest := by rw [insert_of_mem hfirst]
      _ = set := ih hrest

/-- Adding a list again changes nothing. -/
theorem insertAll_insertAll (set : IssueSet) (codes : List String) :
    (set.insertAll codes).insertAll codes = set.insertAll codes :=
  insertAll_of_subset fun _ hcode => mem_insertAll.mpr (.inr hcode)

/-- A call adds the codes that it gives. -/
theorem perform_eq (set : IssueSet) (call : IssueCall) :
    call.perform set = set.insertAll call.codes := by
  cases call with
  | insert code => exact set.tryInsert_snd code
  | insertAll codes => rfl

/-- Calls in a row add all codes that they give. -/
theorem after_eq (set : IssueSet) (calls : List IssueCall) :
    set.after calls = set.insertAll (calls.flatMap IssueCall.codes) := by
  induction calls generalizing set with
  | nil => rfl
  | cons call rest ih =>
    calc set.after (call :: rest)
        = (call.perform set).after rest := rfl
      _ = (set.insertAll call.codes).insertAll (rest.flatMap IssueCall.codes) := by
        rw [ih, perform_eq]
      _ = set.insertAll ((call :: rest).flatMap IssueCall.codes) := by
        rw [← insertAll_append, List.flatMap_cons]

/-! ## Documents -/

/-- A document of codes, whoever wrote it, is read as the set of them. -/
theorem decode_read (bytes : Bytes) :
    decode IssueSet.read bytes = (decode (readList readString) bytes).map ofList :=
  decode_map (readList readString) ofList bytes

/-- A set comes back from its own document. -/
theorem decode_text (set : IssueSet) : decode IssueSet.read (utf8 set.value.text) = .ok set := by
  rw [Json.decode_text IssueSet.read (by simp [value]), read_tree]

/-- After calls that put codes into the set of a list, the set has all codes that were given as they
occur first. That a code was added is told exactly if it was put at the end, and this is so exactly
if it was not given before; otherwise the set is as it was. For any set, adding two lists at once is
adding them in turn, and adding a list again changes nothing; its codes make the same set again, and
so does its document. A list that was made a set once is not changed when it is made one again, and
a document of codes is read as the set of what it lists. -/
theorem keeps_first_occurrences (codes : List String) (calls : List IssueCall) :
    let given := codes ++ calls.flatMap IssueCall.codes
    let set := (ofList codes).after calls
    (set.codes = given.eraseDups ∧ set.codes.Nodup) ∧
      (∀ code, ((set.tryInsert code).1 = true ↔
            (set.tryInsert code).2.codes = set.codes ++ [code]) ∧
          ((set.tryInsert code).1 = true ↔ code ∉ given) ∧
          ((set.tryInsert code).1 = false → (set.tryInsert code).2 = set)) ∧
      (∀ (set : IssueSet) (xs ys : List String),
        set.insertAll (xs ++ ys) = (set.insertAll xs).insertAll ys ∧
          (set.insertAll xs).insertAll xs = set.insertAll xs ∧
          ofList set.codes = set ∧ decode IssueSet.read (utf8 set.value.text) = .ok set) ∧
      (ofList (ofList codes).codes).codes = (ofList codes).codes ∧
      ∀ bytes, decode IssueSet.read bytes = (decode (readList readString) bytes).map ofList := by
  intro given set
  have hcodes : set.codes = given.eraseDups := by
    have hset : set = ofList given := by
      rw [show set = (ofList codes).insertAll _ from after_eq _ _, ofList, ← insertAll_append]
      rfl
    rw [hset, codes_ofList]
  have hheld (code : String) : code ∈ set.codes ↔ code ∈ given := by rw [hcodes, List.mem_eraseDups]
  refine ⟨⟨hcodes, set.nodup⟩, fun code => ⟨set.tryInsert_fst_iff_appended code, ?_, ?_⟩,
    fun set xs ys => ⟨set.insertAll_append xs ys, set.insertAll_insertAll xs, set.ofList_codes,
      set.decode_text⟩, congrArg _ (ofList_codes _), decode_read⟩
  · rw [tryInsert_fst_iff_new, hheld]
  · intro htold
    have hold : code ∈ set.codes := by
      by_contra hnew
      exact Bool.false_ne_true (htold.symm.trans (tryInsert_fst_iff_new.mpr hnew))
    rw [tryInsert_snd, insert_of_mem hold]

example : ((ofList ["b", "a", "b"]).after [.insert "c", .insertAll ["a", "d"], .insert "b"]).codes =
    ["b", "a", "c", "d"] := by decide

end IssueSet

end MarketFeed

import MarketFeed.Proofs.Json.Spelling
import MarketFeed.Proofs.Number.Numeral
import MarketFeed.Json.Tree
import Mathlib.Data.Fintype.Basic
import Mathlib.Tactic.FinCases

/-!
# Texts of documents

The text of a document is a value with white space around it. There may be white space on both
sides of every value, key and mark, strings and numerals may be written in any of their ways, and
containers may be nested to any depth.

Every text of a tree is followed to its end and gives the tree. The tokens are read one by one, each
with white space in front of it, and each leads from one position to the next; a run of the reader
is a chain of such steps. Each part of the grammar is a run, whatever stands behind it, if that does
not go on with a numeral.
-/

namespace MarketFeed.Json

open MarketFeed.Number

/-! ## The grammar -/

/-- White space. -/
def IsGap (cs : List Char) : Prop := ∀ c ∈ cs, c = ' ' ∨ c = '\n' ∨ c = '\r' ∨ c = '\t'

/-- Whether characters are white space can be decided. -/
instance (cs : List Char) : Decidable (IsGap cs) :=
  List.decidableBAll (fun c => c = ' ' ∨ c = '\n' ∨ c = '\r' ∨ c = '\t') cs

mutual

/-- The ways to write a tree. -/
inductive Tree.Written : Tree → List Char → Prop
  | null : Tree.Written .null "null".toList
  | bool (b : Bool) : Tree.Written (.bool b) (if b then "true".toList else "false".toList)
  | numeral {n : Numeral} {cs : List Char} (h : n.Written cs) : Tree.Written (.numeral n) cs
  | string {s : Spelling} {cs : List Char} (h : s.Written cs) :
      Tree.Written (.string s) ('"' :: (cs ++ ['"']))
  | array {items : List Tree} {cs : List Char} (h : ItemsWritten items cs) :
      Tree.Written (.array items true) ('[' :: (cs ++ [']']))
  | object {members : List Member} {cs : List Char} (h : MembersWritten members cs) :
      Tree.Written (.object members true) ('\x7b' :: (cs ++ ['\x7d']))

/-- The ways to write a value with white space around it, as it stands in an array or for a whole
document. -/
inductive ItemWritten : Tree → List Char → Prop
  | intro {tree : Tree} {before cs after : List Char} (hbefore : IsGap before)
      (h : Tree.Written tree cs) (hafter : IsGap after) :
      ItemWritten tree (before ++ (cs ++ after))

/-- The ways to write the items of an array. -/
inductive ItemsWritten : List Tree → List Char → Prop
  | none {gap : List Char} (hgap : IsGap gap) : ItemsWritten [] gap
  | last {tree : Tree} {cs : List Char} (h : ItemWritten tree cs) : ItemsWritten [tree] cs
  | more {tree next : Tree} {rest : List Tree} {cs more : List Char} (h : ItemWritten tree cs)
      (hrest : ItemsWritten (next :: rest) more) :
      ItemsWritten (tree :: next :: rest) (cs ++ ',' :: more)

/-- The ways to write a member of an object. -/
inductive MemberWritten : Member → List Char → Prop
  | intro {key : Spelling} {tree : Tree} {before name after cs : List Char} (hbefore : IsGap before)
      (hkey : key.Written name) (hafter : IsGap after) (h : ItemWritten tree cs) :
      MemberWritten (key, tree) (before ++ '"' :: (name ++ '"' :: (after ++ ':' :: cs)))

/-- The ways to write the members of an object. -/
inductive MembersWritten : List Member → List Char → Prop
  | none {gap : List Char} (hgap : IsGap gap) : MembersWritten [] gap
  | last {member : Member} {cs : List Char} (h : MemberWritten member cs) :
      MembersWritten [member] cs
  | more {member next : Member} {rest : List Member} {cs more : List Char}
      (h : MemberWritten member cs) (hrest : MembersWritten (next :: rest) more) :
      MembersWritten (member :: next :: rest) (cs ++ ',' :: more)

end

/-! ## Tokens -/

/-- No token begins with white space. -/
theorem readToken?_gap {b : UInt8} (hb : isGap b = true) (rest : Bytes) :
    readToken? (b :: rest) = none := by
  simp only [isGap, Bool.or_eq_true, decide_eq_true_eq] at hb
  rcases hb with ((rfl | rfl) | rfl) | rfl <;> rfl

/-- A token that a byte string begins with is the first of its tokens. -/
theorem tokensWithin_succ {bytes rest : Bytes} {token : Token}
    (h : readToken? bytes = some (token, rest)) (budget : Nat) :
    tokensWithin (budget + 1) bytes = token :: tokensWithin budget rest := by
  cases bytes with
  | nil => cases h
  | cons b tail =>
    have hb : isGap b = false := by
      rw [← Bool.not_eq_true]
      intro hgap
      rw [readToken?_gap hgap] at h
      cases h
    rw [tokensWithin, List.dropWhile_cons_of_neg (by simp [hb])]
    simp only [h]

/-- White space in front of tokens is passed over. -/
theorem tokensWithin_gap {gap : Bytes} (hgap : ∀ b ∈ gap, isGap b = true) (budget : Nat)
    (bytes : Bytes) :
    tokensWithin (budget + 1) (gap ++ bytes) = tokensWithin (budget + 1) bytes := by
  rw [tokensWithin, tokensWithin, List.dropWhile_append_of_pos hgap]

/-- White space has no tokens. -/
theorem tokensWithin_of_gap {gap : Bytes} (hgap : ∀ b ∈ gap, isGap b = true) (budget : Nat) :
    tokensWithin (budget + 1) gap = [] := by
  rw [← List.append_nil gap, tokensWithin_gap hgap]
  rfl

/-- The bytes of white space are white space. -/
theorem IsGap.bytes {cs : List Char} (h : IsGap cs) : ∀ b ∈ utf8Chars cs, isGap b = true := by
  intro b hb
  obtain ⟨c, hc, hb⟩ := List.mem_flatMap.mp hb
  rcases h c hc with rfl | rfl | rfl | rfl <;>
    · obtain rfl := List.mem_singleton.mp hb
      rfl

/-- What begins with a byte that cannot go on with a numeral does not go on with it. -/
theorem endsNumeral_cons {b : UInt8} (hb : Digit.ofByte? b = none ∧ b ≠ Ascii.dot ∧
    b ≠ Ascii.lowerE ∧ b ≠ Ascii.upperE) (rest : Bytes) : EndsNumeral (b :: rest) := by
  intro c hc
  obtain rfl := Option.some.inj hc
  exact hb

/-- White space does not go on with a numeral. -/
theorem IsGap.endsNumeral {cs : List Char} (h : IsGap cs) {rest : Bytes}
    (hrest : EndsNumeral rest) : EndsNumeral (utf8Chars cs ++ rest) := by
  cases cs with
  | nil => exact hrest
  | cons c cs =>
    rcases h c List.mem_cons_self with rfl | rfl | rfl | rfl <;>
      exact endsNumeral_cons (by decide) _

/-- A string is one token, however it is written. -/
theorem readToken?_string {s : Spelling} {cs : List Char} (h : s.Written cs) (rest : Bytes) :
    readToken? (Ascii.quote :: (utf8Chars cs ++ Ascii.quote :: rest)) =
      some (.string s, rest) := by
  change (readSpelling? _).map _ = _
  rw [readSpelling?_written h]
  rfl

/-- A byte that begins a numeral begins no other token. -/
theorem readToken?_eq_readNumeral? {b : UInt8} (hb : b = Ascii.minus ∨ ∃ d : Digit, b = d.byte)
    (rest : Bytes) :
    readToken? (b :: rest) = (readNumeral? (b :: rest)).map fun p => (.numeral p.1, p.2) := by
  rcases hb with rfl | ⟨d, rfl⟩
  · rfl
  · fin_cases d <;> rfl

/-- A numeral is one token, however it is written. -/
theorem readToken?_numeral {n : Numeral} {cs : List Char} (h : n.Written cs) {rest : Bytes}
    (hrest : EndsNumeral rest) :
    readToken? (utf8Chars cs ++ rest) = some (.numeral n, rest) := by
  have hread := readNumeral?_written h hrest
  obtain ⟨b, more, hbytes, hb⟩ := h.exists_cons
  rw [hbytes, List.cons_append] at hread ⊢
  rw [readToken?_eq_readNumeral? hb, hread]
  rfl

/-! ## Runs of the reader -/

/-- A position goes on after a token that fits. -/
theorem follow_cons {position position' : Position} {token : Token} (rest : List Token)
    (h : position.next? token = some position') :
    position.follow (token :: rest) = position'.follow rest := by
  rw [Position.follow, h]

/-- The reader goes from one position to another by tokens that fit, with white space in front of
them, and leaves the rest of the bytes. -/
inductive Runs : Position → Bytes → Position → Bytes → Prop
  | refl (position : Position) (bytes : Bytes) : Runs position bytes position bytes
  | step {position between final : Position} {gap bytes rest left : Bytes} {token : Token}
      (hgap : ∀ b ∈ gap, isGap b = true) (hread : readToken? bytes = some (token, rest))
      (hless : rest.length < bytes.length) (hnext : position.next? token = some between)
      (hrest : Runs between rest final left) : Runs position (gap ++ bytes) final left

namespace Runs

variable {position between final : Position} {bytes rest left gap : Bytes} {token : Token}

/-- One run after another. -/
protected theorem trans (h : Runs position bytes between rest)
    (hrest : Runs between rest final left) : Runs position bytes final left := by
  induction h with
  | refl => exact hrest
  | step hgap hread hless hnext _ ih => exact .step hgap hread hless hnext (ih hrest)

/-- A single token. -/
protected theorem single (hgap : ∀ b ∈ gap, isGap b = true)
    (hread : readToken? bytes = some (token, rest)) (hless : rest.length < bytes.length)
    (hnext : position.next? token = some final) : Runs position (gap ++ bytes) final rest :=
  .step hgap hread hless hnext (.refl final rest)

/-- Where a run leaves nothing but white space the document ends. -/
theorem follow_tokens (h : Runs position bytes final left) (hleft : ∀ b ∈ left, isGap b = true)
    {budget : Nat} (hbudget : bytes.length < budget) :
    position.follow (tokensWithin budget bytes) = ⟨final.cut, final.isComplete⟩ := by
  induction h generalizing budget with
  | refl position bytes =>
    obtain ⟨budget, rfl⟩ : ∃ n, budget = n + 1 := ⟨budget - 1, by omega⟩
    rw [tokensWithin_of_gap hleft]
    rfl
  | step hgap hread hless hnext _ ih =>
    obtain ⟨budget, rfl⟩ : ∃ n, budget = n + 1 := ⟨budget - 1, by omega⟩
    rw [List.length_append] at hbudget
    rw [tokensWithin_gap hgap, tokensWithin_succ hread, follow_cons _ hnext]
    exact ih hleft (by omega)

end Runs

/-- A value fits here, and it will stand inside these containers. -/
def Position.Awaits (position : Position) (stack : List Frame) : Prop :=
  ∀ token next, Position.begin? stack token = some next → position.next? token = some next

/-- A value fits where a value must follow. -/
theorem awaits_value (stack : List Frame) : (Position.value stack).Awaits stack :=
  fun _ _ h => h

/-- A value fits where an array begins. No value begins with the end of the array. -/
theorem awaits_firstItem (stack : List Frame) :
    (Position.firstItem stack).Awaits (.array [] :: stack) := by
  intro token next h
  cases token with
  | closeBracket => cases h
  | _ => exact h

/-- The bytes of a text with a mark in it. -/
theorem utf8Chars_mark {c : Char} {b : UInt8} (hb : String.utf8EncodeChar c = [b])
    (cs ds : List Char) (rest : Bytes) :
    utf8Chars (cs ++ c :: ds) ++ rest = utf8Chars cs ++ b :: (utf8Chars ds ++ rest) := by
  rw [utf8Chars_append, utf8Chars_cons, hb, List.append_assoc]
  rfl

/-- A key fits at every place for one. -/
theorem next?_key (members : List Member) (key : Spelling) (stack : List Frame) :
    (Position.key members stack).next? (.string key) = some (.colon members key stack) := by
  cases members <;> rfl

/-- A byte string in front of another one makes it longer, if it is not empty. -/
theorem length_lt_append {bytes : Bytes} (h : bytes ≠ []) (rest : Bytes) :
    rest.length < (bytes ++ rest).length := by
  have := List.length_pos_iff.mpr h
  rw [List.length_append]
  omega

mutual

/-- The reader runs through a value, with white space in front of it. -/
theorem Tree.Written.runs : ∀ {tree : Tree} {cs : List Char}, Tree.Written tree cs →
    ∀ {position : Position} {stack : List Frame}, position.Awaits stack → ∀ {gap rest : Bytes},
      (∀ b ∈ gap, isGap b = true) → EndsNumeral rest →
        Runs position (gap ++ (utf8Chars cs ++ rest)) (.after tree stack) rest
  | _, _, .null, _, _, hawaits, _, _, hgap, _ =>
    .single hgap rfl (length_lt_append (by decide) _) (hawaits _ _ rfl)
  | _, _, .bool true, _, _, hawaits, _, _, hgap, _ =>
    .single hgap rfl (length_lt_append (by decide) _) (hawaits _ _ rfl)
  | _, _, .bool false, _, _, hawaits, _, _, hgap, _ =>
    .single hgap rfl (length_lt_append (by decide) _) (hawaits _ _ rfl)
  | _, _, .numeral h, _, _, hawaits, _, _, hgap, hrest => by
    obtain ⟨b, more, hbytes, -⟩ := h.exists_cons
    exact .single hgap (readToken?_numeral h hrest) (length_lt_append (by simp [hbytes]) _)
      (hawaits _ _ rfl)
  | _, _, .string h, _, _, hawaits, _, rest, hgap, _ => by
    change Runs _ (_ ++ Ascii.quote :: (utf8Chars (_ ++ ['"']) ++ rest)) _ _
    rw [utf8Chars_mark rfl]
    exact .single hgap (readToken?_string h rest) (by simp; omega) (hawaits _ _ rfl)
  | _, _, .array h, _, stack, hawaits, _, rest, hgap, _ => by
    change Runs _ (_ ++ Ascii.openBracket :: (utf8Chars (_ ++ [']']) ++ rest)) _ _
    rw [utf8Chars_mark rfl]
    refine .step hgap rfl (Nat.lt_succ_self _) (hawaits _ _ rfl) ?_
    exact h.runs (awaits_firstItem stack) (fun _ => ⟨rfl, rfl⟩) rest
  | _, _, .object h, _, stack, hawaits, _, rest, hgap, _ => by
    change Runs _ (_ ++ Ascii.openBrace :: (utf8Chars (_ ++ ['\x7d']) ++ rest)) _ _
    rw [utf8Chars_mark rfl]
    refine .step hgap rfl (Nat.lt_succ_self _) (hawaits _ _ rfl) ?_
    exact h.runs (fun _ => rfl) rest

/-- The reader runs through a value with white space around it, up to the white space behind it. -/
theorem ItemWritten.runs : ∀ {tree : Tree} {cs : List Char}, ItemWritten tree cs →
    ∀ {position : Position} {stack : List Frame}, position.Awaits stack → ∀ {rest : Bytes},
      EndsNumeral rest → ∃ gap, (∀ b ∈ gap, isGap b = true) ∧
        Runs position (utf8Chars cs ++ rest) (.after tree stack) (gap ++ rest)
  | _, _, .intro hbefore h hafter, _, _, hawaits, _, hrest => by
    refine ⟨_, hafter.bytes, ?_⟩
    rw [utf8Chars_append, utf8Chars_append, List.append_assoc, List.append_assoc]
    exact h.runs hawaits hbefore.bytes (hafter.endsNumeral hrest)

/-- The reader runs through the items of an array, behind those there already, up to its end. An
array can end without items only where it begins. -/
theorem ItemsWritten.runs : ∀ {items : List Tree} {cs : List Char}, ItemsWritten items cs →
    ∀ {position : Position} {done : List Tree} {stack : List Frame},
      position.Awaits (.array done :: stack) →
      (items = [] → position = .firstItem stack ∧ done = []) → ∀ (rest : Bytes),
        Runs position (utf8Chars cs ++ Ascii.closeBracket :: rest)
          (.after (.array (done.reverse ++ items) true) stack) rest
  | _, _, .none hgap, _, _, _, _, hfirst, _ => by
    obtain ⟨rfl, rfl⟩ := hfirst rfl
    exact .single hgap.bytes rfl (Nat.lt_succ_self _) rfl
  | _, _, .last h, _, done, stack, hawaits, _, rest => by
    obtain ⟨gap, hgap, hitem⟩ :=
      h.runs hawaits (endsNumeral_cons (b := Ascii.closeBracket) (by decide) rest)
    refine hitem.trans (.single hgap rfl (Nat.lt_succ_self _) ?_)
    rw [← List.reverse_cons]
    rfl
  | _, _, @ItemsWritten.more tree _ _ _ _ h hmore, _, done, stack, hawaits, _, rest => by
    rw [utf8Chars_mark rfl]
    obtain ⟨gap, hgap, hitem⟩ := h.runs hawaits (endsNumeral_cons (b := Ascii.comma) (by decide) _)
    refine hitem.trans (.step hgap rfl (Nat.lt_succ_self _) rfl ?_)
    have hrest := hmore.runs (awaits_value (.array (tree :: done) :: stack)) nofun rest
    rwa [List.reverse_cons, List.append_assoc] at hrest

/-- The reader runs through a member of an object, behind those there already, up to the white space
behind it. -/
theorem MemberWritten.runs : ∀ {member : Member} {cs : List Char}, MemberWritten member cs →
    ∀ (done : List Member) (stack : List Frame) {rest : Bytes}, EndsNumeral rest →
      ∃ gap, (∀ b ∈ gap, isGap b = true) ∧ Runs (.key done stack) (utf8Chars cs ++ rest)
        (.after member.2 (.object done member.1 :: stack)) (gap ++ rest)
  | _, _, .intro hbefore hkey hafter h, done, stack, rest, hrest => by
    obtain ⟨gap, hgap, hitem⟩ := h.runs (awaits_value (.object done _ :: stack)) hrest
    refine ⟨gap, hgap, ?_⟩
    rw [utf8Chars_mark rfl, utf8Chars_mark rfl, utf8Chars_mark rfl]
    refine .step hbefore.bytes (readToken?_string hkey _) (by simp; omega)
      (next?_key done _ stack) ?_
    exact .step hafter.bytes rfl (Nat.lt_succ_self _) rfl hitem

/-- The reader runs through the members of an object, behind those there already, up to its end. An
object can end without members only where it begins. -/
theorem MembersWritten.runs : ∀ {members : List Member} {cs : List Char},
    MembersWritten members cs → ∀ {done : List Member} {stack : List Frame},
      (members = [] → done = []) → ∀ (rest : Bytes),
        Runs (.key done stack) (utf8Chars cs ++ Ascii.closeBrace :: rest)
          (.after (.object (done.reverse ++ members) true) stack) rest
  | _, _, .none hgap, _, _, hfirst, _ => by
    obtain rfl := hfirst rfl
    exact .single hgap.bytes rfl (Nat.lt_succ_self _) rfl
  | _, _, .last h, done, stack, _, rest => by
    obtain ⟨gap, hgap, hmember⟩ :=
      h.runs done stack (endsNumeral_cons (b := Ascii.closeBrace) (by decide) rest)
    refine hmember.trans (.single hgap rfl (Nat.lt_succ_self _) ?_)
    rw [← List.reverse_cons]
    rfl
  | _, _, @MembersWritten.more member _ _ _ _ h hmore, done, stack, _, rest => by
    rw [utf8Chars_mark rfl]
    obtain ⟨gap, hgap, hmember⟩ :=
      h.runs done stack (endsNumeral_cons (b := Ascii.comma) (by decide) _)
    refine hmember.trans (.step hgap rfl (Nat.lt_succ_self _) rfl ?_)
    have hrest := @MembersWritten.runs _ _ hmore (member :: done) stack nofun rest
    rwa [List.reverse_cons, List.append_assoc] at hrest

end

/-- The text of a document is read as its tree, and nothing is left over. -/
theorem ofBytes_written {tree : Tree} {cs : List Char} (h : ItemWritten tree cs) :
    Document.ofBytes (utf8Chars cs) = ⟨some tree, true⟩ := by
  obtain ⟨gap, hgap, hruns⟩ := h.runs (awaits_value []) (show EndsNumeral [] from nofun)
  rw [List.append_nil, List.append_nil] at hruns
  exact hruns.follow_tokens hgap (Nat.lt_succ_self _)

/-- Whatever is read from the text of a document is read from its tree. -/
theorem decode_written {α : Type} (read : Tree → Except Fault α) {tree : Tree} {cs : List Char}
    (h : ItemWritten tree cs) : decode read (utf8Chars cs) = read tree := by
  rw [decode, ofBytes_written h]
  change (read tree >>= fun a => pure a) = read tree
  exact bind_pure _

end MarketFeed.Json

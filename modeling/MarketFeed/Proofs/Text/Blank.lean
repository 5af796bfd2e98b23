import MarketFeed.Text.Blank
import Mathlib.Data.List.TakeWhile

/-!
# Texts without white space at the ends

Trimming takes the white space at both ends of a text and keeps the rest. What is left has none
there, so it is not trimmed any further, and it is blank only if the whole text was.
-/

namespace MarketFeed.Text

/-- A text neither begins nor ends with white space. -/
def Trimmed (s : String) : Prop :=
  ∀ c, s.toList.head? = some c ∨ s.toList.getLast? = some c → isBlankChar c = false

/-- White space is dropped up to a character that is none. -/
theorem head?_trimFront {s : List Char} {c : Char} (h : (trimFront s).head? = some c) :
    isBlankChar c = false := by
  have hdropped := List.head?_dropWhile_not isBlankChar s
  rw [trimFront] at h
  simpa [h] using hdropped

/-- A text that was trimmed is a beginning of what follows the white space at its front. -/
theorem trimBack_prefix (s : List Char) : trimBack s <+: s := by
  have hdropped := (List.dropWhile_suffix (l := s.reverse) isBlankChar).reverse
  rwa [List.reverse_reverse] at hdropped

/-- Trimming leaves no white space at either end. -/
theorem trimmed_trim (s : String) : Trimmed (trim s) := by
  intro c hc
  rw [trim, String.toList_ofList, trimChars] at hc
  rcases hc with hhead | hlast
  · obtain ⟨rest, hrest⟩ := trimBack_prefix (trimFront s.toList)
    apply head?_trimFront (s := s.toList)
    rw [← hrest, List.head?_append, hhead, Option.some_or]
  · apply head?_trimFront (s := (trimFront s.toList).reverse)
    rwa [trimBack, List.getLast?_reverse] at hlast

/-- A text that is not blank is the text itself. -/
theorem nonBlank?_eq_some {s t : String} (h : nonBlank? s = some t) :
    t = s ∧ isBlank t = false := by
  unfold nonBlank? at h
  cases hblank : isBlank s with
  | true => simp [hblank] at h
  | false =>
    obtain rfl : s = t := by simpa [hblank] using h
    exact ⟨rfl, hblank⟩

/-- The empty text is blank. -/
theorem ne_empty_of_isBlank {s : String} (h : isBlank s = false) : s ≠ "" := by
  rintro rfl
  simp [isBlank] at h

/-- What stands at the front does not decide whether a text is blank. -/
theorem all_trimFront (s : List Char) :
    (trimFront s).all isBlankChar = s.all isBlankChar := by
  induction s with
  | nil => rfl
  | cons c rest ih =>
    cases hc : isBlankChar c with
    | true => simpa [trimFront, hc] using ih
    | false => simp [trimFront, hc]

/-- Trimming does not make a text blank, nor the other way around. -/
@[simp] theorem isBlank_trim (s : String) : isBlank (trim s) = isBlank s := by
  rw [isBlank, trim, String.toList_ofList, trimChars, trimBack, List.all_reverse, all_trimFront,
    List.all_reverse, all_trimFront, isBlank]

/-- A text that begins with a character that is shown keeps all of it. -/
theorem trimFront_eq_self {s : List Char} (h : ∀ c, s.head? = some c → isBlankChar c = false) :
    trimFront s = s := by
  cases s with
  | nil => rfl
  | cons c rest => simp [trimFront, h c rfl]

/-- There is nothing to trim on a text without white space at the ends. -/
theorem trim_of_trimmed {s : String} (h : Trimmed s) : trim s = s := by
  have hfront : trimFront s.toList = s.toList :=
    trimFront_eq_self fun c hc => h c (.inl hc)
  have hback : trimFront s.toList.reverse = s.toList.reverse :=
    trimFront_eq_self fun c hc => h c (.inr (by rwa [List.head?_reverse] at hc))
  rw [trim, trimChars, hfront, trimBack, hback, List.reverse_reverse, String.ofList_toList]

/-- Trimming twice is trimming once. -/
@[simp] theorem trim_trim (s : String) : trim (trim s) = trim s :=
  trim_of_trimmed (trimmed_trim s)

/-- White space around characters that are none is taken away. -/
theorem trimChars_padded {before s after : List Char}
    (hbefore : ∀ c ∈ before, isBlankChar c = true) (hafter : ∀ c ∈ after, isBlankChar c = true)
    (hs : ∀ c ∈ s, isBlankChar c = false) : trimChars (before ++ s ++ after) = s := by
  have hfront : trimFront (before ++ s ++ after) = trimFront (s ++ after) := by
    rw [List.append_assoc, trimFront, List.dropWhile_append_of_pos hbefore, trimFront]
  have hback : trimFront (s ++ after).reverse = trimFront s.reverse := by
    rw [List.reverse_append, trimFront, List.dropWhile_append_of_pos (by simpa using hafter),
      trimFront]
  have hself : trimFront s.reverse = s.reverse :=
    trimFront_eq_self fun c hc => hs c (List.mem_reverse.mp (List.mem_of_mem_head? hc))
  rw [trimChars, hfront]
  cases s with
  | nil => rw [List.nil_append, trimFront, List.dropWhile_eq_nil_iff.mpr hafter]; rfl
  | cons c rest =>
    have hkept : trimFront (c :: rest ++ after) = c :: rest ++ after :=
      trimFront_eq_self fun d hd => hs d (by simp_all)
    rw [hkept, trimBack, hback, hself, List.reverse_reverse]

/-- Nothing is left of a blank text. -/
theorem trim_of_isBlank {s : String} (h : isBlank s = true) : trim s = "" := by
  have hnone : trimFront s.toList = [] := by
    rw [trimFront, List.dropWhile_eq_nil_iff]
    exact List.all_eq_true.mp h
  rw [trim, trimChars, hnone]
  rfl

end MarketFeed.Text

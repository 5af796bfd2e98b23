import MarketFeed.DeadLetter
import MarketFeed.Proofs.Number.Digits

/-!
# A place is told by its text

The text of a place ends with two numbers, each behind a colon. No number holds a colon, so the
text is cut at the last two of them, even if the topic holds colons of its own.
-/

namespace MarketFeed

open Number

/-- A list is cut in one way only at the last occurrence of an element. -/
theorem append_cons_inj_of_last {α : Type} {a : α} {front front' back back' : List α}
    (hback : a ∉ back) (hback' : a ∉ back') (h : front ++ a :: back = front' ++ a :: back') :
    front = front' ∧ back = back' := by
  rcases List.append_eq_append_iff.mp h with ⟨more, hfront, htail⟩ | ⟨more, hfront, htail⟩
  · cases more with
    | nil =>
      rw [List.append_nil] at hfront
      exact ⟨hfront.symm, List.tail_eq_of_cons_eq htail⟩
    | cons b more =>
      have hsame : back = more ++ a :: back' := List.tail_eq_of_cons_eq htail
      exact absurd (by simp [hsame]) hback
  · cases more with
    | nil =>
      rw [List.append_nil] at hfront
      exact ⟨hfront, (List.tail_eq_of_cons_eq htail).symm⟩
    | cons b more =>
      have hsame : back' = more ++ a :: back := List.tail_eq_of_cons_eq htail
      exact absurd (by simp [hsame]) hback'

namespace Coordinates

/-- The characters of the text of a place. -/
theorem toList_text (c : Coordinates) :
    c.text.toList =
      (c.topic.toList ++ ':' :: intChars c.partition.toInt) ++ ':' :: intChars c.offset.toInt := by
  simp [text, intText]

/-- Places with the same text are the same. -/
theorem text_injective : Function.Injective Coordinates.text := by
  intro c c' h
  have hcolon (n : Int) : ':' ∉ intChars n := not_mem_intChars (by decide) (by decide) n
  have hchars := congrArg String.toList h
  rw [toList_text, toList_text] at hchars
  obtain ⟨hfront, hoffset⟩ := append_cons_inj_of_last (hcolon _) (hcolon _) hchars
  obtain ⟨htopic, hpartition⟩ := append_cons_inj_of_last (hcolon _) (hcolon _) hfront
  obtain ⟨topic, partition, offset⟩ := c
  obtain ⟨topic', partition', offset'⟩ := c'
  obtain rfl : topic = topic' := String.toList_inj.mp htopic
  obtain rfl : partition = partition' := Int32.toInt.inj (intChars_injective hpartition)
  obtain rfl : offset = offset' := Int64.toInt.inj (intChars_injective hoffset)
  rfl

end Coordinates

end MarketFeed

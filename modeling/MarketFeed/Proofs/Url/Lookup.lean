import MarketFeed.Proofs.Url.Escape
import MarketFeed.Backfill.Store

/-!
# Where the last tick of an instrument is found

The id of an instrument goes into the path of a lookup as one segment. Tabs and line ends are left
out, and the rest is escaped, so that it ends at the next segment and nowhere before, and is read
back from its bytes. So the lookups of two ids go to different places, unless the ids differ in
tabs and line ends only.

An id of which one dot or two are left has no segment of its own: the lookup goes to a place above
that of the instruments.
-/

namespace MarketFeed

namespace Url

/-- The characters of a text that are written into a URL. -/
def kept (s : List Char) : List Char := s.filter fun c => !isDropped c

/-- A text as one segment of a path. -/
def segment (special : Bool) (s : List Char) : List Char :=
  escape (escapedInSegment special) (kept s)

/-- A text has a segment of its own: it does not stand for the place it is at or the one above. -/
def HasSegment (s : List Char) : Prop := kept s ≠ ['.'] ∧ kept s ≠ ['.', '.']

/-- A path as it is before it is extended: without the empty segment it ends with. -/
def stem (path : List (List Char)) : List (List Char) :=
  if withoutEmptyEnd path = [[]] then [] else withoutEmptyEnd path

/-! ## Extending a path -/

/-- A text with a segment of its own extends a path by that segment. -/
theorem extendPath_of_hasSegment {special : Bool} {text : List Char} (h : HasSegment text)
    (path : List (List Char)) :
    extendPath special path text =
      (if path = [[]] then [] else path) ++ [segment special text] := by
  have hdot : text ≠ ['.'] := by
    rintro rfl
    exact h.1 rfl
  have hdots : text ≠ ['.', '.'] := by
    rintro rfl
    exact h.2 rfl
  have hnoDot : isDot (segment special text) = false := isDot_escape h.1
  have hnoDots : isDoubleDot (segment special text) = false := isDoubleDot_escape h.2
  rw [segment, kept] at hnoDot hnoDots
  simp [extendPath, addSegment, segment, kept, hdot, hdots, hnoDot, hnoDots]

/-- Texts with segments of their own extend a path by these, if the path holds more than an empty
segment. -/
theorem foldl_extendPath {special : Bool} {texts : List (List Char)}
    (h : ∀ text ∈ texts, HasSegment text) {path : List (List Char)}
    (hpath : ∃ s ∈ path, s ≠ []) :
    texts.foldl (extendPath special) path = path ++ texts.map (segment special) := by
  induction texts generalizing path with
  | nil => simp
  | cons text rest ih =>
    obtain ⟨s, hs, hne⟩ := hpath
    have hroom : path ≠ [[]] := by
      rintro rfl
      exact hne (List.mem_singleton.mp hs)
    rw [List.foldl_cons, extendPath_of_hasSegment (h text List.mem_cons_self), if_neg hroom,
      ih (fun other hother => h other (List.mem_cons_of_mem _ hother))
        ⟨s, List.mem_append_left _ hs, hne⟩,
      List.append_assoc, List.map_cons, List.singleton_append]

/-- Texts with segments of their own extend the path of a URL by these, if the first is not
empty. -/
theorem extend_of_hasSegment {first : List Char} {rest : List (List Char)}
    (h : ∀ text ∈ first :: rest, HasSegment text) (hfirst : kept first ≠ []) (url : Url) :
    (url.extend (first :: rest)).path =
      stem url.path ++ (first :: rest).map (segment (schemeKind url.scheme).isSpecial) := by
  have hnonempty : segment (schemeKind url.scheme).isSpecial first ≠ [] := fun hempty =>
    hfirst (escape_injective (percent_escaped _) hempty)
  simp only [extend, List.foldl_cons]
  rw [extendPath_of_hasSegment (h first List.mem_cons_self),
    foldl_extendPath (fun text htext => h text (List.mem_cons_of_mem _ htext))
      ⟨_, List.mem_append_right _ List.mem_cons_self, hnonempty⟩,
    List.append_assoc, List.map_cons, List.singleton_append, stem]

/-! ## The texts of URLs that differ in one segment -/

/-- What stands before the path does not depend on a segment that two others stand around. -/
theorem authorityChars_replace (url : Url) (before after : List (List Char))
    {first last : List Char} (s t : List Char) :
    authorityChars { url with path := before ++ first :: s :: last :: after } =
      authorityChars { url with path := before ++ first :: t :: last :: after } := by
  unfold authorityChars
  cases url.host with
  | some host => rfl
  | none =>
    rcases before with _ | ⟨b, _ | ⟨c, before⟩⟩
    · cases first <;> rfl
    · cases b <;> rfl
    · cases b <;> rfl

end Url

/-! ## The lookups of a store -/

namespace HistoricalStore

open Url Text

/-- The segment of an id in the path of a lookup. -/
def idSegment (store : HistoricalStore) (id : String) : List Char :=
  segment (schemeKind store.base.scheme).isSpecial id.toList

variable {store : HistoricalStore} {id other : String}

/-- A lookup extends the path of the store by three segments, and changes nothing else. -/
theorem latestUrl_eq (h : HasSegment id.toList) :
    store.latestUrl id = { store.base with
      path := stem store.base.path ++
        ["instruments".toList, store.idSegment id, "latest".toList] } := by
  have htexts : ∀ text ∈ ["instruments".toList, id.toList, "latest".toList], HasSegment text := by
    simp only [List.mem_cons, List.not_mem_nil, or_false]
    rintro text (rfl | rfl | rfl)
    · exact ⟨by decide, by decide⟩
    · exact h
    · exact ⟨by decide, by decide⟩
  have hwords : ∀ special, segment special "instruments".toList = "instruments".toList ∧
      segment special "latest".toList = "latest".toList := by
    decide
  have hpath := extend_of_hasSegment htexts (by decide) store.base
  simp only [List.map_cons, List.map_nil, hwords] at hpath
  change { store.base with path := (store.latestUrl id).path } = _
  exact congrArg (fun path => { store.base with path := path }) hpath

/-- The ids of two lookups have the same segment exactly if the same characters of them are
written. -/
theorem idSegment_eq_iff (store : HistoricalStore) :
    store.idSegment other = store.idSegment id ↔ kept other.toList = kept id.toList :=
  (escape_injective (percent_escaped _)).eq_iff

/-- Lookups have the same text around the segments of their ids. -/
theorem exists_text_latestUrl (store : HistoricalStore) :
    ∃ front back, ∀ id, HasSegment id.toList →
      (store.latestUrl id).text =
        String.ofList (front ++ "/instruments/".toList ++ store.idSegment id ++
          "/latest".toList ++ back) := by
  refine ⟨store.base.scheme ++ ':' :: authorityChars { store.base with
      path := stem store.base.path ++ ["instruments".toList, [], "latest".toList] } ++
      pathChars (stem store.base.path),
    tailChars '?' store.base.query ++ tailChars '#' store.base.fragment, fun id hid => ?_⟩
  rw [latestUrl_eq hid, Url.text, chars, authorityChars_replace store.base _ _ _ []]
  simp [pathChars]

/-- The server is asked for the path of the store, the three segments and the query of the
store. -/
theorem target_latestUrl (h : HasSegment id.toList) :
    (store.latestUrl id).target =
      String.ofList (pathChars (stem store.base.path) ++ "/instruments/".toList ++
        store.idSegment id ++ "/latest".toList ++ tailChars '?' store.base.query) := by
  rw [latestUrl_eq h, target]
  simp [pathChars]

/-- The lookup of an id with a segment of its own extends the path of the store by three segments,
the second of which gives the characters of the id back and holds nothing that would end it, and
it changes nothing else. Another lookup has the same text, or asks the server for the same, only if
it is for the same characters. -/
theorem latestUrl_addresses (store : HistoricalStore) {id other : String}
    (hid : HasSegment id.toList) (hother : HasSegment other.toList) :
    store.latestUrl id = { store.base with
        path := stem store.base.path ++
          ["instruments".toList, store.idSegment id, "latest".toList] } ∧
      unescape (store.idSegment id) = utf8Chars (kept id.toList) ∧
      (∀ c ∈ store.idSegment id,
        endsSegment (schemeKind store.base.scheme).isSpecial c = false) ∧
      isDot (store.idSegment id) = false ∧ isDoubleDot (store.idSegment id) = false ∧
      ((store.latestUrl other).text = (store.latestUrl id).text ↔
        kept other.toList = kept id.toList) ∧
      ((store.latestUrl other).target = (store.latestUrl id).target ↔
        kept other.toList = kept id.toList) := by
  obtain ⟨front, back, htext⟩ := exists_text_latestUrl store
  refine ⟨latestUrl_eq hid, unescape_escape (percent_escaped _) _,
    fun c hc => endsSegment_of_mem_escape hc, isDot_escape hid.1, isDoubleDot_escape hid.2,
    ?text, ?target⟩
  case text =>
    rw [htext id hid, htext other hother, ← idSegment_eq_iff store]
    simp [String.ofList_inj]
  case target =>
    rw [target_latestUrl hid, target_latestUrl hother, ← idSegment_eq_iff store]
    simp [String.ofList_inj]

/-- A slash in an id and the escape of one are told apart, behind a path that ends with an empty
segment and in front of a query. -/
theorem latestUrl_addresses_of_slash :
    ∃ store, HistoricalStore.ofUrl "https://history:8443/api/?key=k" none = .ok store ∧
      (store.latestUrl "A/B").text = "https://history:8443/api/instruments/A%2FB/latest?key=k" ∧
      (store.latestUrl "A%2FB").text ≠ (store.latestUrl "A/B").text := by
  refine ⟨_, rfl, rfl, fun hsame => ?_⟩
  have hkept := (latestUrl_addresses _ ⟨by decide, by decide⟩ ⟨by decide, by decide⟩).2.2.2.2.2.1.mp
    hsame
  exact absurd hkept (by decide)

/-- Trimmed ids that differ in a tab only share one lookup, and so do those of one dot and of two,
which go to a place above that of the instruments. -/
theorem latestUrl_shared :
    ∃ store, HistoricalStore.ofUrl "http://history:8000" none = .ok store ∧
      (∀ id ∈ ["A\tB", "AB", ".", ".."], trim id = id ∧ isBlank id = false) ∧
      (store.latestUrl "A\tB").text = "http://history:8000/instruments/AB/latest" ∧
      (store.latestUrl "AB").text = "http://history:8000/instruments/AB/latest" ∧
      (store.latestUrl ".").text = "http://history:8000/instruments/latest" ∧
      (store.latestUrl "..").text = "http://history:8000/instruments/latest" :=
  ⟨_, rfl, by decide, rfl, rfl, rfl, rfl⟩

end HistoricalStore

end MarketFeed

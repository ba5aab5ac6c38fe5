import Bourse.Client.Target
import Bourse.Service.Http
import Mathlib.Data.List.TakeWhile

/-!
# Addresses

A client reads the text of an address as a target, and the service takes the path of the target
apart. On the way some characters of the text vanish, backslashes become slashes, a question
mark and a number sign end the path, and segments of dots are followed. What is left of the
segments is escaped, and the escapes bring in none of these characters again, so that the path
of the target is that of the escaped segments: `path_of_target`.

A text is measured by its bytes. What vanishes, ends or is followed shortens the text, and only a
backslash becomes another character of the same length. So a text that comes through all this
with its length has no such character and no segment of dots.
-/

namespace Bourse

/-! ## Lengths in bytes -/

namespace Text

/-- How many bytes characters are written with. -/
def size : List Char → Nat
  | [] => 0
  | c :: cs => c.utf8Size + size cs

/-- No characters take no bytes. -/
@[simp] theorem size_nil : size [] = 0 := rfl

/-- The bytes of the first character come on top of those of the others. -/
@[simp] theorem size_cons (c : Char) (cs : List Char) : size (c :: cs) = c.utf8Size + size cs := rfl

/-- The bytes of two texts are those of both. -/
@[simp] theorem size_append (cs later : List Char) : size (cs ++ later) = size cs + size later := by
  induction cs with
  | nil => simp
  | cons c cs induction => simp [induction, Nat.add_assoc]

/-- A text takes as many bytes as its encoding has. -/
theorem size_eq_length (cs : List Char) : (utf8 (String.ofList cs)).length = size cs := by
  rw [utf8, String.toList_ofList]
  induction cs with
  | nil => rfl
  | cons c cs induction => simp [induction]

/-- Some of the characters are all of them, or are shorter. -/
theorem size_of_sublist {part cs : List Char} (sublist : part.Sublist cs) :
    size part < size cs ∨ part = cs := by
  induction sublist with
  | slnil => exact .inr rfl
  | cons c sublist induction =>
    have positive := c.utf8Size_pos
    left
    rcases induction with shorter | rfl <;> rw [size_cons] <;> omega
  | cons_cons c sublist induction =>
    rcases induction with shorter | rfl
    · exact .inl (by simpa using shorter)
    · exact .inr rfl

end Text

/-! ## Parts of a path -/

/-- A path of parts, each behind a slash. -/
def pathOf (parts : List (List Char)) : List Char := parts.flatMap fun part => '/' :: part

/-- The path without parts is empty. -/
@[simp] theorem path_of_nil : pathOf [] = [] := rfl

/-- The first part of a path stands behind a slash, in front of the others. -/
@[simp] theorem path_of_cons (part : List Char) (parts : List (List Char)) :
    pathOf (part :: parts) = '/' :: (part ++ pathOf parts) := by
  simp [pathOf]

/-- The path of more parts goes on where that of the first ends. -/
@[simp] theorem path_of_append (parts later : List (List Char)) :
    pathOf (parts ++ later) = pathOf parts ++ pathOf later := List.flatMap_append

/-- The length of a path does not depend on the order of its parts. -/
theorem size_path_reverse (parts : List (List Char)) :
    Text.size (pathOf parts.reverse) = Text.size (pathOf parts) := by
  induction parts with
  | nil => rfl
  | cons part parts induction =>
    simp [induction]
    omega

/-- The pieces of what goes on behind a piece without the separator. -/
theorem Text.pieces_append {separator : Char} {piece rest first : List Char}
    {others : List (List Char)} (inside : separator ∉ piece)
    (behind : pieces separator rest = first :: others) :
    pieces separator (piece ++ rest) = (piece ++ first) :: others := by
  induction piece with
  | nil => exact behind
  | cons c piece induction =>
    obtain ⟨other, inside⟩ := List.ne_and_not_mem_of_not_mem_cons inside
    have different : (c == separator) = false := beq_false_of_ne other.symm
    rw [List.cons_append, pieces, different, if_neg (by decide), induction inside]
    rfl

/-- The pieces of a path are its parts behind an empty piece, if no part has a slash. -/
theorem pieces_of_whole {parts : List (List Char)} (whole : ∀ part ∈ parts, '/' ∉ part) :
    Text.pieces '/' (pathOf parts) = [] :: parts := by
  induction parts with
  | nil => rfl
  | cons part parts induction =>
    obtain ⟨first, rest⟩ := List.forall_mem_cons.mp whole
    have behind : Text.pieces '/' (part ++ pathOf parts) = part :: parts := by
      rw [Text.pieces_append first (induction rest), List.append_nil]
    rw [path_of_cons, Text.pieces, if_pos (by decide), behind]

/-- The path of the pieces of a text is the text behind a slash. -/
theorem path_of_pieces (cs : List Char) : pathOf (Text.pieces '/' cs) = '/' :: cs := by
  fun_induction Text.pieces '/' cs with
  | case1 => rfl
  | case2 c rest separator induction =>
    obtain rfl := eq_of_beq separator
    simp [induction]
  | case3 c rest other none => simp_all
  | case4 c rest other first others behind induction => simp_all

/-- No piece has the separator. -/
theorem Text.whole_of_pieces {separator : Char} {cs piece : List Char}
    (listed : piece ∈ pieces separator cs) : separator ∉ piece := by
  fun_induction pieces separator cs generalizing piece with
  | case1 => simp_all
  | case2 c rest same induction => grind
  | case3 c rest other none induction => grind
  | case4 c rest other first others behind induction => grind

namespace Client

/-! ## Dots -/

/-- Whether a segment is one or two dots, plain or escaped. -/
def isDots (segment : List Char) : Bool := isDoubleDot segment || isSingleDot segment

/-- A segment of dots is not empty. -/
theorem size_of_dots {segment : List Char} (dots : isDots segment = true) :
    1 ≤ Text.size segment := by
  cases segment with
  | nil => exact absurd dots (by decide)
  | cons c rest =>
    have positive := c.utf8Size_pos
    rw [Text.size_cons]
    omega

/-- A segment that is no dots is put behind the others. -/
theorem followed_dotless {segment : List Char} (dotless : isDots segment = false)
    (known rest : List (List Char)) :
    followDots known (segment :: rest) = followDots (segment :: known) rest := by
  obtain ⟨double, single⟩ := Bool.or_eq_false_iff.mp dotless
  simp [followDots, double, single]

/-- A segment of dots leaves some of the others, and an empty one if it is the last. -/
theorem followed_dots {segment : List Char} (dots : isDots segment = true)
    (known rest : List (List Char)) :
    ∃ here, here <:+ known ∧ followDots known (segment :: rest) =
      if rest.isEmpty then ([] :: here).reverse else followDots here rest := by
  cases double : isDoubleDot segment with
  | true => exact ⟨known.drop 1, List.drop_suffix 1 known, by simp [followDots, double]⟩
  | false =>
    have single : isSingleDot segment = true := by rwa [isDots, double, Bool.false_or] at dots
    exact ⟨known, List.suffix_refl known, by simp [followDots, double, single]⟩

/-- Segments without dots stay as they are. -/
theorem followed_of_dotless {known segments : List (List Char)}
    (dotless : ∀ segment ∈ segments, isDots segment = false) :
    followDots known segments = known.reverse ++ segments := by
  induction segments generalizing known with
  | nil => exact (List.append_nil _).symm
  | cons segment segments induction =>
    obtain ⟨first, rest⟩ := List.forall_mem_cons.mp dotless
    rw [followed_dotless first, induction rest, List.reverse_cons, List.append_assoc]
    rfl

/-- What is left is empty, was known, or is a segment other than dots. -/
theorem forall_followed {property : List Char → Prop} (blank : property [])
    {known segments : List (List Char)} (before : ∀ segment ∈ known, property segment)
    (each : ∀ segment ∈ segments, isDots segment = false → property segment) :
    ∀ segment ∈ followDots known segments, property segment := by
  induction segments generalizing known with
  | nil =>
    rw [followDots]
    exact fun segment listed => before segment (List.mem_reverse.mp listed)
  | cons segment segments induction =>
    obtain ⟨first, rest⟩ := List.forall_mem_cons.mp each
    cases dots : isDots segment with
    | false =>
      rw [followed_dotless dots]
      exact induction (List.forall_mem_cons.mpr ⟨first dots, before⟩) rest
    | true =>
      obtain ⟨here, suffix, onward⟩ := followed_dots dots known segments
      have left : ∀ segment ∈ here, property segment :=
        fun segment listed => before segment (suffix.subset listed)
      rw [onward]
      split
      case isTrue last =>
        have all : ∀ segment ∈ [] :: here, property segment :=
          List.forall_mem_cons.mpr ⟨blank, left⟩
        exact fun segment listed => all segment (List.mem_reverse.mp listed)
      case isFalse more => exact induction left rest

/-- Following dots shortens whatever it changes. -/
theorem followed_size (known segments : List (List Char)) :
    Text.size (pathOf (followDots known segments)) <
        Text.size (pathOf known) + Text.size (pathOf segments) ∨
      followDots known segments = known.reverse ++ segments := by
  induction segments generalizing known with
  | nil => exact .inr (List.append_nil _).symm
  | cons segment segments induction =>
    cases dots : isDots segment with
    | false =>
      rw [followed_dotless dots]
      rcases induction (segment :: known) with shorter | same
      · left
        simp at shorter ⊢
        omega
      · exact .inr (by simp [same])
    | true =>
      left
      obtain ⟨here, suffix, onward⟩ := followed_dots dots known segments
      have fewer : Text.size (pathOf here) ≤ Text.size (pathOf known) := by
        obtain ⟨front, rfl⟩ := suffix
        simp
      have positive := size_of_dots dots
      rw [onward]
      cases segments with
      | nil =>
        simp [size_path_reverse]
        omega
      | cons next segments =>
        rcases induction here with shorter | same
        · simp at shorter ⊢
          omega
        · simp [same, size_path_reverse]
          omega

/-! ## Characters -/

/-- Whether a character vanishes from an address, ends its path or becomes a slash. -/
def isMark (c : Char) : Bool := "\t\n\r\\?#".toList.contains c

/-- What is left of a text without tabs and line breaks up to the end of its path. -/
def keptText (cs : List Char) : List Char :=
  ((cs.filter fun c => !(c == '\t' || c == '\n' || c == '\r')).takeWhile (· != '#')).takeWhile
    (· != '?')

/-- A slash for a backslash. -/
def straightened (c : Char) : Char := if c == '\\' then '/' else c

/-- The path in a text. -/
def pathText (cs : List Char) : List Char := (keptText cs).map straightened

/-- What is kept of a text stands in it, in its order. -/
theorem kept_sublist (cs : List Char) : (keptText cs).Sublist cs :=
  (List.takeWhile_sublist _).trans ((List.takeWhile_sublist _).trans List.filter_sublist)

/-- No mark is left. -/
theorem unmarked_of_path_text {cs : List Char} {c : Char} (member : c ∈ pathText cs) :
    isMark c = false := by
  obtain ⟨own, kept, rfl⟩ := List.mem_map.mp member
  have question := List.mem_takeWhile_imp kept
  have number := List.mem_takeWhile_imp (List.takeWhile_subset _ kept)
  have blank := (List.mem_filter.mp (List.takeWhile_subset _ (List.takeWhile_subset _ kept))).2
  unfold straightened
  split
  case isTrue => decide
  case isFalse other => simp_all [isMark]

/-- Without marks a text is left as it is. -/
theorem path_text_of_unmarked {cs : List Char} (unmarked : ∀ c ∈ cs, isMark c = false) :
    pathText cs = cs := by
  have apart {c : Char} (member : c ∈ cs) (mark : Char) (special : isMark mark = true) :
      c ≠ mark := by
    rintro rfl
    rw [unmarked c member] at special
    contradiction
  have kept : cs.filter (fun c => !(c == '\t' || c == '\n' || c == '\r')) = cs := by
    refine List.filter_eq_self.mpr fun c member => ?_
    simp [apart member '\t' (by decide), apart member '\n' (by decide),
      apart member '\r' (by decide)]
  have whole (mark : Char) (special : isMark mark = true) : cs.takeWhile (· != mark) = cs :=
    List.takeWhile_eq_self_iff.mpr fun c member => by simp [apart member mark special]
  have straight : cs.map straightened = cs := by
    refine (List.map_congr_left fun c member => ?_).trans (List.map_id _)
    exact if_neg (by simp [apart member '\\' (by decide)])
  rw [pathText, keptText, kept, whole '#' (by decide), whole '?' (by decide), straight]

/-- A slash is as long as a backslash. -/
theorem size_straightened (cs : List Char) : Text.size (cs.map straightened) = Text.size cs := by
  have width (c : Char) : (straightened c).utf8Size = c.utf8Size := by
    unfold straightened
    split
    case isTrue backslash => rw [eq_of_beq backslash]; rfl
    case isFalse => rfl
  induction cs with
  | nil => rfl
  | cons c cs induction => simp [width, induction]

/-- A text is shortened, or only its backslashes become slashes. -/
theorem path_text_size (cs : List Char) :
    Text.size (pathText cs) < Text.size cs ∨ pathText cs = cs.map straightened := by
  rcases Text.size_of_sublist (kept_sublist cs) with shorter | same
  · exact .inl ((size_straightened _).trans_lt shorter)
  · exact .inr (congrArg (List.map straightened) same)

/-! ## Targets -/

/-- The segments of the path of an address whose text goes on with a slash behind its server. -/
def segmentsOf (cs : List Char) : List (List Char) :=
  followDots [] ((Text.pieces '/' (pathText cs)).drop 1)

/-- No segment has a slash, and none is dots. -/
theorem segments_whole (cs : List Char) :
    ∀ segment ∈ segmentsOf cs, '/' ∉ segment ∧ isDots segment = false := by
  have blank : '/' ∉ ([] : List Char) ∧ isDots [] = false := by decide
  refine forall_followed blank nofun fun segment listed dotless => ⟨?_, dotless⟩
  exact Text.whole_of_pieces (List.mem_of_mem_drop listed)

/-- A path without marks and dots has its own segments. -/
theorem segments_of_path {parts : List (List Char)}
    (unmarked : ∀ c ∈ pathOf parts, isMark c = false)
    (whole : ∀ part ∈ parts, '/' ∉ part) (dotless : ∀ part ∈ parts, isDots part = false) :
    segmentsOf (pathOf parts) = parts := by
  rw [segmentsOf, path_text_of_unmarked unmarked, pieces_of_whole whole, List.drop_one,
    List.tail_cons, followed_of_dotless dotless]
  rfl

/-- A text that begins with a slash is longer than its segments, or only its backslashes become
slashes. -/
theorem segments_size (cs : List Char) :
    Text.size (pathOf (segmentsOf ('/' :: cs))) < Text.size ('/' :: cs) ∨
      pathOf (segmentsOf ('/' :: cs)) = pathText ('/' :: cs) ∧
        pathText ('/' :: cs) = ('/' :: cs).map straightened := by
  have slash : pathText ('/' :: cs) = '/' :: pathText cs := by
    simp [pathText, keptText, straightened]
  have behind : segmentsOf ('/' :: cs) = followDots [] (Text.pieces '/' (pathText cs)) := by
    rw [segmentsOf, slash, Text.pieces, if_pos (by decide)]
    rfl
  have followed := followed_size [] (Text.pieces '/' (pathText cs))
  rw [path_of_nil, Text.size_nil, Nat.zero_add, path_of_pieces, ← behind, ← slash] at followed
  have text := path_text_size ('/' :: cs)
  rcases followed with less | same
  · left
    rcases text with shorter | straight
    · exact less.trans shorter
    · rwa [straight, size_straightened] at less
  · have path : pathOf (segmentsOf ('/' :: cs)) = pathText ('/' :: cs) := by
      rw [same, List.reverse_nil, List.nil_append, path_of_pieces, slash]
    rw [path]
    exact text.imp_right fun straight => ⟨rfl, straight⟩

/-- An escape is a percent sign with letters and digits. -/
theorem alphanum_of_encoded {b : UInt8} {c : Char} (member : c ∈ Text.percentEncoded b) :
    c = '%' ∨ c.isAlphanum = true := by
  have digit : ∀ value < 16, (Text.hexDigit value).toUpper.isAlphanum = true := by decide
  have bounded := b.toNat_lt
  simp only [Text.percentEncoded, List.mem_cons, List.not_mem_nil, or_false] at member
  rcases member with rfl | rfl | rfl
  · exact .inl rfl
  · exact .inr (digit _ (by omega))
  · exact .inr (digit _ (by omega))

/-- What is escaped is not in an escaped text, but for percent signs, letters and digits. -/
theorem mem_of_escaped {isEscaped : Char → Bool} {cs : List Char} {c : Char}
    (member : c ∈ escaped isEscaped cs) (special : c ≠ '%' ∧ c.isAlphanum = false) :
    c ∈ cs ∧ isEscaped c = false := by
  obtain ⟨own, listed, inside⟩ := List.mem_flatMap.mp member
  split at inside
  case isTrue =>
    obtain ⟨b, -, encoded⟩ := List.mem_flatMap.mp inside
    rcases alphanum_of_encoded encoded with percent | letter
    · exact absurd percent special.1
    · rw [special.2] at letter
      contradiction
  case isFalse plain =>
    obtain rfl := List.mem_singleton.mp inside
    exact ⟨listed, Bool.eq_false_iff.mpr plain⟩

/-- A text whose escaped form has no percent sign has nothing to escape. -/
theorem escaped_of_no_percent {isEscaped : Char → Bool} {cs : List Char}
    (plain : '%' ∉ escaped isEscaped cs) : escaped isEscaped cs = cs := by
  induction cs with
  | nil => rfl
  | cons c cs induction =>
    have behind : escaped isEscaped (c :: cs) =
        (if isEscaped c then (String.utf8EncodeChar c).flatMap Text.percentEncoded else [c]) ++
          escaped isEscaped cs := List.flatMap_cons
    rw [behind] at plain ⊢
    have rest : '%' ∉ escaped isEscaped cs := fun later => plain (List.mem_append_right _ later)
    cases special : isEscaped c with
    | false =>
      rw [induction rest]
      rfl
    | true =>
      obtain ⟨b, listed⟩ := List.exists_mem_of_ne_nil _ (String.utf8EncodeChar_ne_nil (c := c))
      rw [special] at plain
      exact absurd (List.mem_append_left _
        (List.mem_flatMap.mpr ⟨b, listed, List.mem_cons_self⟩)) plain

/-- What is escaped in a path is not in the path of escaped segments. -/
theorem absent_from_path {mark : Char} {segments : List (List Char)}
    (special : mark ≠ '/' ∧ mark ≠ '%' ∧ mark.isAlphanum = false ∧ isEscapedInPath mark = true) :
    mark ∉ pathOf (segments.map (escaped isEscapedInPath)) := by
  intro member
  obtain ⟨part, listed, inside⟩ := List.mem_flatMap.mp member
  obtain ⟨segment, -, rfl⟩ := List.mem_map.mp listed
  rcases List.mem_cons.mp inside with slash | inside
  · exact special.1 slash
  · have plain := (mem_of_escaped inside ⟨special.2.1, special.2.2.1⟩).2
    rw [special.2.2.2] at plain
    contradiction

/-- What is behind the characters up to a mark begins with the mark. -/
theorem head_of_drop_while {mark c : Char} {cs rest : List Char}
    (behind : cs.dropWhile (· != mark) = c :: rest) : c = mark := by
  have ends := List.head?_dropWhile_not (· != mark) cs
  rw [behind] at ends
  simpa using ends

/-- The target of an address is the path of its escaped segments with a query behind it, if the
text has a question mark. -/
theorem target_eq (text : String) : ∃ query : List Char,
    (∀ c ∈ query.head?, c = '?' ∧ '?' ∈ text.toList) ∧ targetOf text = String.ofList
      (pathOf ((segmentsOf text.toList).map (escaped isEscapedInPath)) ++ query) := by
  rw [pathOf, List.flatMap_map]
  refine ⟨_, ?_, rfl⟩
  split
  case h_1 => nofun
  case h_2 mark query behind =>
    rintro c ⟨⟩
    obtain rfl := head_of_drop_while behind
    have inside := (List.dropWhile_sublist _).subset (behind ▸ List.mem_cons_self)
    exact ⟨rfl, (List.mem_filter.mp (List.takeWhile_subset _ inside)).1⟩

end Client

/-- A target ends with its path at the query behind it. -/
theorem HttpRequest.split_path {parts : List (List Char)} {query : List Char}
    (mark : ∀ c ∈ query.head?, c = '?') (number : '#' ∉ pathOf parts)
    (question : '?' ∉ pathOf parts) :
    (splitTarget (String.ofList (pathOf parts ++ query))).1 = pathOf parts := by
  have whole (mark : Char) (absent : mark ∉ pathOf parts) :
      ∀ c ∈ pathOf parts, (c != mark) = true := by
    intro c member
    exact bne_iff_ne.mpr fun same => absent (same ▸ member)
  have server : behindServer (pathOf parts ++ query) = pathOf parts ++ query ∨
      pathOf parts = [] ∧ behindServer (pathOf parts ++ query) = [] := by
    cases parts with
    | cons part parts => exact .inl (by rw [path_of_cons]; rfl)
    | nil =>
      cases query with
      | nil => exact .inl rfl
      | cons c query =>
        obtain rfl := mark c rfl
        exact .inr ⟨rfl, rfl⟩
  show ((behindServer (String.ofList _).toList).takeWhile (· != '#')).takeWhile (· != '?') = _
  rw [String.toList_ofList]
  rcases server with same | ⟨empty, nothing⟩
  · rw [same, List.takeWhile_append_of_pos (whole '#' number),
      List.takeWhile_append_of_pos (whole '?' question)]
    cases query with
    | nil => simp
    | cons c query =>
      obtain rfl := mark c rfl
      simp
  · rw [nothing, empty]
    rfl

/-- The service finds the path that the client has escaped. -/
theorem path_of_target (text : String) :
    (HttpRequest.splitTarget (Client.targetOf text)).1 =
      pathOf ((Client.segmentsOf text.toList).map (Client.escaped Client.isEscapedInPath)) := by
  obtain ⟨query, mark, target⟩ := Client.target_eq text
  rw [target, HttpRequest.split_path (fun c first => (mark c first).1)
    (Client.absent_from_path (by decide)) (Client.absent_from_path (by decide))]

end Bourse

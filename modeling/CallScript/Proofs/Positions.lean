import Mathlib.Order.Bounds.Basic
import CallScript.Builtin.Text
import CallScript.Proofs.ClosingBrackets
import CallScript.Proofs.Derivation
import CallScript.Proofs.ExactCounts

/-!
# Positions in texts

`strpos`, `length` and `substr` are used together: what the first two answer is what the third is
asked with. So they have to mean the same by a position. They do, as each of them counts characters
from zero. Here that is put in terms of where a part of a text is (`OccursAt`): the search finds the
least such position (`firstIndex?_eq_some_iff`), or none if there is none
(`firstIndex?_eq_none_iff`), and cutting out at such a position gives the part
(`OccursAt.take_drop`).

A search need not go by characters. In a text that is kept as bytes it is faster to look for the
bytes of the needle, and to count the characters before the byte that was found at the end. This
finds the same (`positionByBytes?_eq`). What it rests on is that no character's first byte is within
another character, so the bytes of a needle are nowhere but where the needle is
(`exists_of_bytesOf_eq`). Only the needle without bytes is within characters too, and that one is
found before.

`substr` may be asked for a part that is not there. Where a part begins and ends is moved into the
text then, and the begin never comes behind the end, however large the numbers are (`bounds_le`).
-/

namespace CallScript.Builtin

/-! ## Where a part of a list begins -/

section

variable {α : Type} {part list : List α} {i k : Nat}

/-- Whether a list has a part behind its first `i` elements. -/
def OccursAt (part list : List α) (i : Nat) : Prop :=
  ∃ before after, list = before ++ part ++ after ∧ before.length = i

theorem occursAt_zero : OccursAt part list 0 ↔ part <+: list := by
  constructor
  · rintro ⟨before, after, rfl, hlength⟩
    rw [List.length_eq_zero_iff.mp hlength]
    exact ⟨after, rfl⟩
  · rintro ⟨after, rfl⟩
    exact ⟨[], after, rfl, rfl⟩

theorem occursAt_succ {c : α} : OccursAt part (c :: list) (i + 1) ↔ OccursAt part list i := by
  constructor
  · rintro ⟨before, after, hlist, hlength⟩
    cases before with
    | nil => cases hlength
    | cons b before =>
      rw [List.cons_append, List.cons_append, List.cons.injEq] at hlist
      exact ⟨before, after, hlist.2, Nat.succ.inj hlength⟩
  · rintro ⟨before, after, rfl, rfl⟩
    exact ⟨c :: before, after, rfl, rfl⟩

/-- What is before a part is as many elements as its position says. -/
theorem OccursAt.exists_eq_take (h : OccursAt part list i) :
    ∃ after, list = list.take i ++ part ++ after := by
  obtain ⟨before, after, rfl, rfl⟩ := h
  exact ⟨after, by rw [List.append_assoc before, List.take_left, List.append_assoc]⟩

theorem OccursAt.take_drop (h : OccursAt part list i) : (list.drop i).take part.length = part := by
  obtain ⟨before, after, rfl, rfl⟩ := h
  rw [List.append_assoc, List.drop_left, List.take_left]

theorem OccursAt.le_length (h : OccursAt part list i) : i ≤ list.length := by
  obtain ⟨before, after, rfl, rfl⟩ := h
  simp only [List.length_append, Nat.add_assoc, Nat.le_add_right]

theorem OccursAt.isPart (h : OccursAt part list i) : part <:+: list := by
  obtain ⟨before, after, rfl, -⟩ := h
  exact ⟨before, after, rfl⟩

variable [BEq α] [LawfulBEq α]

/-- The search finds the least position that there is from where it is. -/
theorem isLeast_of_indexFrom? (h : indexFrom? part k list = some i) :
    ∃ j, i = k + j ∧ IsLeast {j | OccursAt part list j} j := by
  induction list generalizing k with
  | nil =>
    rw [indexFrom?] at h
    split at h
    · next hempty =>
      cases h
      rw [List.isEmpty_iff.mp hempty]
      exact ⟨0, rfl, occursAt_zero.mpr (List.prefix_refl []), fun j _ => Nat.zero_le j⟩
    · cases h
  | cons c list ih =>
    rw [indexFrom?] at h
    split at h
    · next hprefix =>
      cases h
      exact ⟨0, rfl, occursAt_zero.mpr (List.isPrefixOf_iff_prefix.mp hprefix),
        fun j _ => Nat.zero_le j⟩
    · next hprefix =>
      obtain ⟨j, rfl, hoccurs, hleast⟩ := ih h
      refine ⟨j + 1, by omega, occursAt_succ.mpr hoccurs, fun l hl => ?_⟩
      cases l with
      | zero => exact absurd (List.isPrefixOf_iff_prefix.mpr (occursAt_zero.mp hl)) hprefix
      | succ l => exact Nat.succ_le_succ (hleast (occursAt_succ.mp hl))

/-- The search misses nothing. -/
theorem not_occursAt_of_indexFrom? (h : indexFrom? part k list = none) : ¬OccursAt part list i := by
  induction list generalizing k i with
  | nil =>
    rintro ⟨before, after, hlist, -⟩
    rw [indexFrom?] at h
    split at h
    · cases h
    · next hne =>
      simp only [List.nil_eq, List.append_eq_nil_iff] at hlist
      exact hne (List.isEmpty_iff.mpr hlist.1.2)
  | cons c list ih =>
    rw [indexFrom?] at h
    split at h
    · cases h
    · next hprefix =>
      intro hoccurs
      cases i with
      | zero => exact hprefix (List.isPrefixOf_iff_prefix.mpr (occursAt_zero.mp hoccurs))
      | succ i => exact ih h (occursAt_succ.mp hoccurs)

theorem firstIndex?_eq_none_iff : firstIndex? part list = none ↔ ¬part <:+: list := by
  constructor
  · rintro h ⟨before, after, rfl⟩
    exact not_occursAt_of_indexFrom? h ⟨before, after, rfl, rfl⟩
  · intro h
    refine Option.eq_none_iff_forall_ne_some.mpr fun i hi => ?_
    obtain ⟨j, -, hoccurs, -⟩ := isLeast_of_indexFrom? hi
    exact h (OccursAt.isPart hoccurs)

theorem firstIndex?_eq_some_iff :
    firstIndex? part list = some i ↔ IsLeast {j | OccursAt part list j} i := by
  have hleast {i : Nat} (h : firstIndex? part list = some i) :
      IsLeast {j | OccursAt part list j} i := by
    obtain ⟨j, hj, hleast⟩ := isLeast_of_indexFrom? h
    rwa [hj, Nat.zero_add]
  refine ⟨hleast, fun h => ?_⟩
  cases hfound : firstIndex? part list with
  | none => exact absurd (OccursAt.isPart h.1) (firstIndex?_eq_none_iff.mp hfound)
  | some j => rw [(hleast hfound).unique h]

end

/-! ## Texts as bytes -/

/-- The bytes that a text is kept as. -/
def bytesOf (s : List Char) : List UInt8 := s.flatMap String.utf8EncodeChar

theorem bytesOf_append (s t : List Char) : bytesOf (s ++ t) = bytesOf s ++ bytesOf t :=
  List.flatMap_append

theorem length_bytesOf (s : List Char) : (bytesOf s).length = String.utf8Len s := by
  induction s with
  | nil => rfl
  | cons c s ih =>
    rw [bytesOf, List.flatMap_cons, List.length_append, String.length_utf8EncodeChar, ← bytesOf, ih,
      String.utf8Len, Nat.add_comm]

theorem prefix_of_bytesOf {needle text : List Char} {after : List UInt8}
    (h : bytesOf text = bytesOf needle ++ after) : needle <+: text := by
  refine List.isPrefix_of_utf8Encode_append_eq_utf8Encode after.toByteArray ?_
  rw [List.utf8Encode, List.utf8Encode, ← bytesOf, ← bytesOf, h]
  simp

/-- The middle of three parts, cut out by the sizes of the first two. -/
theorem extract_middle (front part rest : ByteArray) :
    (front ++ (part ++ rest)).extract front.size (front.size + part.size) = part := by
  have hskip := @ByteArray.extract_append_size_add front (part ++ rest) 0 part.size
  rw [Nat.add_zero] at hskip
  rw [hskip, ByteArray.extract_append_eq_left rfl]

section

variable {needle text : List Char} (hneedle : needle ≠ []) {before after : List UInt8}
  (h : bytesOf text = before ++ bytesOf needle ++ after)

include hneedle h

/-- The bytes of a part that is not empty begin between characters: the first byte of a character
tells that it is the first. -/
theorem isValid_of_bytesOf_eq : String.Pos.Raw.IsValid (String.ofList text) ⟨before.length⟩ := by
  have hbytes : (String.ofList text).toByteArray =
      before.toByteArray ++ (needle.utf8Encode ++ after.toByteArray) := by
    rw [String.toByteArray_ofList, List.utf8Encode, ← bytesOf, h, List.append_assoc,
      List.toByteArray_append, List.toByteArray_append, List.utf8Encode, ← bytesOf]
  have hbefore : before.toByteArray.size = before.length := List.size_toByteArray
  have hsize : needle.utf8Encode.size = String.utf8Len needle := by
    rw [List.utf8Encode, List.size_toByteArray, ← bytesOf, length_bytesOf]
  have hpart := extract_middle before.toByteArray needle.utf8Encode after.toByteArray
  rw [← hbytes, hbefore, hsize] at hpart
  have hend : before.length + String.utf8Len needle ≤ (String.ofList text).utf8ByteSize := by
    have hlength := congrArg List.length h
    rw [List.length_append, List.length_append, length_bytesOf, length_bytesOf] at hlength
    rw [String.utf8ByteSize_ofList]
    omega
  have hparts := String.Pos.Raw.isValidUTF8_extract_iff (s := String.ofList text)
    ⟨before.length⟩ ⟨before.length + String.utf8Len needle⟩ (Nat.le_add_right ..) hend
  rw [hpart] at hparts
  rcases hparts.mp ByteArray.isValidUTF8_utf8Encode with hsame | ⟨hvalid, -⟩
  · have hsum : before.length = before.length + String.utf8Len needle :=
      congrArg String.Pos.Raw.byteIdx hsame
    exact absurd (String.utf8Len_eq_zero.mp (Nat.left_eq_add.mp hsum)) hneedle
  · exact hvalid

/-- So they are found only where its characters are. -/
theorem exists_of_bytesOf_eq :
    ∃ front rest, text = front ++ needle ++ rest ∧ bytesOf front = before := by
  obtain ⟨front, rest, htext, hlength⟩ :=
    String.Pos.Raw.isValid_iff_exists_append.mp (isValid_of_bytesOf_eq hneedle h)
  have hsplit : text = front.toList ++ rest.toList := by
    rw [← String.toList_append, ← htext, String.toList_ofList]
  have hbefore : (bytesOf front.toList).length = before.length := by
    rw [length_bytesOf, ← String.utf8ByteSize_ofList, String.ofList_toList]
    exact (congrArg String.Pos.Raw.byteIdx hlength).symm
  rw [hsplit, bytesOf_append, List.append_assoc] at h
  obtain ⟨hfront, hrest⟩ := List.append_inj h hbefore
  obtain ⟨rest, hneedle⟩ := prefix_of_bytesOf hrest
  exact ⟨front.toList, rest, by rw [hsplit, ← hneedle, List.append_assoc], hfront⟩

end

/-- Where a part is among the characters, it is among the bytes. -/
theorem OccursAt.bytes {needle text : List Char} {i : Nat} (h : OccursAt needle text i) :
    OccursAt (bytesOf needle) (bytesOf text) (String.utf8Len (text.take i)) := by
  obtain ⟨rest, htext⟩ := h.exists_eq_take
  refine ⟨bytesOf (text.take i), bytesOf rest, ?_, length_bytesOf _⟩
  rw [← bytesOf_append, ← bytesOf_append, ← htext]

/-- Where a part that is not empty is among the bytes, it is among the characters. -/
theorem exists_occursAt_of_bytes {needle text : List Char} (hneedle : needle ≠ []) {offset : Nat}
    (h : OccursAt (bytesOf needle) (bytesOf text) offset) :
    ∃ i, OccursAt needle text i ∧ String.utf8Len (text.take i) = offset := by
  obtain ⟨before, after, hbytes, rfl⟩ := h
  obtain ⟨front, rest, htext, rfl⟩ := exists_of_bytesOf_eq hneedle hbytes
  have htake : text.take front.length = front := by
    rw [htext, List.append_assoc, List.take_left]
  exact ⟨front.length, ⟨front, rest, htext, rfl⟩, by rw [htake, length_bytesOf]⟩

/-- The first place among the bytes is that among the characters. -/
theorem firstIndex?_bytesOf {needle text : List Char} {i : Nat}
    (h : firstIndex? needle text = some i) :
    firstIndex? (bytesOf needle) (bytesOf text) = some (String.utf8Len (text.take i)) := by
  obtain ⟨hoccurs, hleast⟩ := firstIndex?_eq_some_iff.mp h
  refine firstIndex?_eq_some_iff.mpr ⟨hoccurs.bytes, fun offset hoffset => ?_⟩
  by_cases hneedle : needle = []
  · -- Nothing is found at once.
    subst hneedle
    have hzero : i = 0 := Nat.le_zero.mp (hleast (occursAt_zero.mpr List.nil_prefix))
    rw [hzero]
    exact Nat.zero_le offset
  · obtain ⟨j, hj, rfl⟩ := exists_occursAt_of_bytes hneedle hoffset
    exact String.utf8Len_le_of_prefix (List.take_prefix_take_left (hleast hj))

/-- A search by bytes: where it succeeds, the characters before the byte that was found are counted.
There is no answer if this byte is within a character. -/
def positionByBytes? (needle text : List Char) : Option (Option Nat) :=
  match firstIndex? (bytesOf needle) (bytesOf text) with
  | none => some none
  | some offset => (Text.bytes? (String.ofList text) 0 offset).map fun front => some front.length

/-- The search by bytes has an answer, which is that of the search by characters. -/
theorem positionByBytes?_eq (needle text : List Char) :
    positionByBytes? needle text = some (firstIndex? needle text) := by
  cases hfound : firstIndex? needle text with
  | none =>
    have hneedle : needle ≠ [] := by
      rintro rfl
      exact firstIndex?_eq_none_iff.mp hfound List.nil_infix
    have hbytes : firstIndex? (bytesOf needle) (bytesOf text) = none := by
      refine firstIndex?_eq_none_iff.mpr fun ⟨before, after, hbytes⟩ => ?_
      obtain ⟨i, hi, -⟩ :=
        exists_occursAt_of_bytes hneedle ⟨before, after, hbytes.symm, rfl⟩
      exact firstIndex?_eq_none_iff.mp hfound hi.isPart
    rw [positionByBytes?, hbytes]
  | some i =>
    obtain ⟨hoccurs, -⟩ := firstIndex?_eq_some_iff.mp hfound
    have hcut := Text.bytes?_append [] (text.take i) (text.drop i)
    rw [List.nil_append, List.take_append_drop, String.utf8Len_nil, Nat.zero_add] at hcut
    rw [positionByBytes?, firstIndex?_bytesOf hfound]
    simp only [hcut, Option.map_some, List.length_take, Nat.min_eq_left hoccurs.le_length]

/-! ## Parts that are cut out -/

section

variable {start : Nat} (hstart : start ≤ greatestIndex)

include hstart

/-- A part begins before it ends, and ends within the text. -/
theorem bounds_le (size : Nat) (length : Option Nat) :
    (bounds size start length).1 ≤ (bounds size start length).2 ∧
      (bounds size start length).2 ≤ size := by
  cases length with
  | none => exact ⟨Nat.min_le_right .., Nat.le_refl size⟩
  | some n =>
    simp only [bounds]
    omega

/-- A text is what is before a position and what is behind it. -/
theorem slice_append (text : List Char) :
    slice 0 (some start) text ++ slice start none text = text := by
  have hfront : slice 0 (some start) text = text.take start := by
    simp [slice, bounds, Nat.min_eq_left hstart]
  have hrest : slice start none text = text.drop start := by
    rw [List.drop_eq_drop_min, slice, bounds]
    exact List.take_of_length_le (Nat.le_of_eq List.length_drop)
  rw [hfront, hrest, List.take_append_drop]

end

section

variable {text : List Char} (hfits : text.length ≤ greatestIndex)

include hfits

/-- In a text that has no position beyond the greatest, a part is as long as it is asked for, or
ends with the text. -/
theorem slice_some (start n : Nat) :
    slice start (some n) text = (text.drop (min start text.length)).take n := by
  have hlast : min (min (min start text.length + n) greatestIndex) text.length =
      min (min start text.length + n) text.length := by omega
  rw [slice, bounds]
  simp only [hlast]
  refine List.take_eq_take_iff.mpr ?_
  rw [List.length_drop]
  omega

end

/-! ## Numbers as positions -/

theorem index_of_whole? {x : Float} {n : Nat} (h : Number.whole? x = some (n : Int))
    (callee role : String) : index callee role x = .ok (min n greatestIndex) := by
  have hnonnegative := Number.not_lt_zero_of_whole? h
  have hwhole := Number.isWhole_of_whole? h
  rw [index, if_neg (by simp [hnonnegative, hwhole]), Number.toIntWithin_of_whole? h,
    Int.toNat_natCast]

/-- No number is a position beyond the greatest. -/
theorem le_greatestIndex_of_index {callee role : String} {x : Float} {n : Nat}
    (h : index callee role x = .ok n) : n ≤ greatestIndex := by
  rw [index] at h
  split at h
  · cases h
  · cases h
    have hle := Number.toIntWithin_le (Int.natCast_nonneg greatestIndex) x
    omega

/-! ## What the functions hand back -/

/-- Whether a function ends with values for arguments, wherever there is room to run it. -/
def EndsWith (f : Function) (arguments : Bundle) (values : List Value) : Prop :=
  ∀ (registry : Registry) maxDepth room state,
    ((registry.invoke maxDepth (room + 1) f arguments).runIn state).1 = .ok values

theorem endsWith_ofPure {signature : Signature} {run : Bundle → Except RunError (List Value)}
    {arguments : Bundle} {values : List Value} (h : run arguments = .ok values) :
    EndsWith (.ofPure signature run) arguments values := by
  intro registry maxDepth room state
  have hbody : Derives registry maxDepth .free
      (.invoke (room + 1) (.ofPure signature run) arguments) state (.ok values) _ :=
    .invoked (by simp only [Function.ofPure, Function.simple, h]; exact .done) fun _ _ => trivial
  exact congrArg Prod.fst hbody.runIn_eq

/-- `strpos` answers with a number where it is given a text and a needle, in any order. -/
def FindsAt (text needle : String) (x : Float) : Prop :=
  ∀ arguments : Bundle, arguments.get "text" = [.text text] →
    arguments.get "needle" = [.text needle] → EndsWith strpos arguments [.number x]

/-- `length` answers with a number where it is given a text. -/
def HasLength (text : String) (x : Float) : Prop :=
  ∀ arguments : Bundle, arguments.get "text" = [.text text] → EndsWith length arguments [.number x]

/-- `substr` answers with a part where it is given a text, a start, and a length or none, in any
order. -/
def CutsOut (text : String) (start : Float) (length : Option Float) (part : String) : Prop :=
  ∀ arguments : Bundle, arguments.get "text" = [.text text] →
    arguments.get "start" = [.number start] → arguments.contains "length" = length.isSome →
    arguments.get "length" = (length.map Value.number).toList →
    EndsWith substr arguments [.text part]

section

variable {arguments : Bundle} {name : String}

theorem text_of_get {text : String} (h : arguments.get name = [.text text]) (callee : String) :
    arguments.text callee name = .ok text := by
  rw [Bundle.text, Bundle.single?, h]
  rfl

theorem number_of_get {x : Float} (h : arguments.get name = [.number x]) (callee : String) :
    arguments.number callee name = .ok x := by
  rw [Bundle.number, Bundle.single?, h]
  rfl

end

variable {text needle : String}

theorem findsAt_of_some {i : Nat} (h : firstIndex? needle.toList text.toList = some i) :
    FindsAt text needle (Float.ofNat i) := by
  intro arguments htext hneedle
  refine endsWith_ofPure ?_
  simp only [text_of_get htext, text_of_get hneedle, bind, Except.bind, h]

theorem findsAt_of_none (h : firstIndex? needle.toList text.toList = none) :
    FindsAt text needle (-1) := by
  intro arguments htext hneedle
  refine endsWith_ofPure ?_
  simp only [text_of_get htext, text_of_get hneedle, bind, Except.bind, h]

theorem hasLength (text : String) : HasLength text (Float.ofNat text.length) := by
  intro arguments htext
  refine endsWith_ofPure ?_
  simp only [text_of_get htext, bind, Except.bind]

theorem cutsOut_none {start : Float} {first : Nat}
    (hstart : index "substr" "start index" start = .ok first) :
    CutsOut text start none (String.ofList (slice first none text.toList)) := by
  intro arguments htext hget hcontains _
  refine endsWith_ofPure ?_
  simp [text_of_get htext, number_of_get hget, hcontains, hstart, bind, Except.bind, pure,
    Except.pure]

theorem cutsOut_some {start length : Float} {first n : Nat}
    (hstart : index "substr" "start index" start = .ok first)
    (hlength : index "substr" "length" length = .ok n) :
    CutsOut text start (some length) (String.ofList (slice first (some n) text.toList)) := by
  intro arguments htext hget hcontains hcount
  refine endsWith_ofPure ?_
  simp [text_of_get htext, number_of_get hget, hcontains, number_of_get hcount, hstart, hlength,
    bind, Except.bind, Functor.map, Except.map]

/-- A part that is asked for by numbers that are counts. -/
theorem cutsOut_of_whole? (hfits : text.length ≤ greatestIndex) {start length : Float}
    {s l : Nat} (hstart : Number.whole? start = some (s : Int))
    (hlength : Number.whole? length = some (l : Int)) :
    CutsOut text start (some length)
      (String.ofList ((text.toList.drop (min s text.length)).take l)) := by
  have hpart := @cutsOut_some text _ _ _ _ (index_of_whole? hstart "substr" "start index")
    (index_of_whole? hlength "substr" "length")
  have hdrop : min (min s greatestIndex) text.length = min s text.length := by omega
  have htake : (text.toList.drop (min s text.length)).take (min l greatestIndex) =
      (text.toList.drop (min s text.length)).take l := by
    refine List.take_eq_take_iff.mpr ?_
    rw [List.length_drop, String.length_toList]
    omega
  rwa [slice_some hfits, String.length_toList, hdrop, htake] at hpart

/-- Searching, counting and cutting agree about the characters of every text.

* `strpos` answers with a number. It is `-1` exactly if the needle is no part of the text, and else
  it is the least position that the needle is at, from which `substr` cuts the needle out when it is
  given the length of the needle. This takes numbers that stand for the position and the length.
* `length` answers with the number of characters, and all counts below `2 ^ 53` have a number that
  stands for them.
* A search by bytes finds what the search by characters does.
* Given numbers that stand for `s` and `l`, `substr` skips `s` characters, or as many as there are,
  and takes `l` of the rest, or as many as there are. What it cuts out before a position and from
  it on make up the text.
* Whichever numbers `substr` takes, the part begins before it ends, and ends within the text.

A text of more than `greatestIndex` characters has positions that `substr` cannot be asked for. It
would take more bytes than a machine of 64 bits can address. -/
theorem positions_agree (text needle : String) :
    (∃ x, FindsAt text needle x ∧ (x = -1 ↔ ¬needle.toList <:+: text.toList) ∧
      (needle.toList <:+: text.toList → ∃ i, x = Float.ofNat i ∧
        IsLeast {j | OccursAt needle.toList text.toList j} i ∧
        (text.length ≤ greatestIndex → ∀ start length,
          Number.whole? start = some (i : Int) → Number.whole? length = some (needle.length : Int) →
            CutsOut text start (some length) needle))) ∧
    HasLength needle (Float.ofNat needle.length) ∧
    (∀ n < 2 ^ 53, Number.whole? (Float.ofNat n) = some (n : Int)) ∧
    positionByBytes? needle.toList text.toList = some (firstIndex? needle.toList text.toList) ∧
    (∀ (s l : Nat) start length,
      Number.whole? start = some (s : Int) → Number.whole? length = some (l : Int) →
        (text.length ≤ greatestIndex → CutsOut text start (some length)
          (String.ofList ((text.toList.drop (min s text.length)).take l))) ∧
        ∀ zero, Number.whole? zero = some 0 → ∃ front rest,
          CutsOut text zero (some start) front ∧ CutsOut text start none rest ∧
            front ++ rest = text) ∧
    ∀ callee role x first, index callee role x = .ok first → ∀ length,
      (bounds text.length first length).1 ≤ (bounds text.length first length).2 ∧
        (bounds text.length first length).2 ≤ text.length := by
  refine ⟨?_, hasLength needle, fun n hn => Number.whole?_ofNat hn, positionByBytes?_eq _ _,
    ?_, ?_⟩
  · cases hfound : firstIndex? needle.toList text.toList with
    | none =>
      have hmissing := firstIndex?_eq_none_iff.mp hfound
      exact ⟨-1, findsAt_of_none hfound, by simp [hmissing], fun h => absurd h hmissing⟩
    | some i =>
      have hleast := firstIndex?_eq_some_iff.mp hfound
      have hminus : Float.ofNat i = -1 ↔ ¬needle.toList <:+: text.toList :=
        iff_of_false (Number.ofNat_ne_neg_one i) (not_not_intro hleast.1.isPart)
      refine ⟨Float.ofNat i, findsAt_of_some hfound, hminus, fun _ => ⟨i, rfl, hleast, ?_⟩⟩
      intro hfits start length hstart hlength
      have hi : i ≤ text.length := hleast.1.le_length
      have hpart := cutsOut_of_whole? hfits hstart hlength
      rwa [Nat.min_eq_left hi, ← String.length_toList (s := needle),
        hleast.1.take_drop, String.ofList_toList] at hpart
  · intro s l start length hstart hlength
    refine ⟨fun hfits => cutsOut_of_whole? hfits hstart hlength, fun zero hzero => ?_⟩
    have hfirst := index_of_whole? (n := 0) hzero "substr" "start index"
    have hindex := index_of_whole? hstart "substr" "start index"
    have hcount := index_of_whole? hstart "substr" "length"
    rw [Nat.zero_min] at hfirst
    refine ⟨_, _, cutsOut_some hfirst hcount, cutsOut_none hindex, ?_⟩
    rw [← String.ofList_append, slice_append (Nat.min_le_right ..), String.ofList_toList]
  · intro callee role x first hfirst length
    exact bounds_le (le_greatestIndex_of_index hfirst) text.length length

/-- A needle among characters of one to four bytes: it is found at its first place, cut out there,
and cut out at its last place by a length that goes beyond the end. -/
theorem positions_agree_wide :
    let text := ("text", [Value.text "aß€𝄞ß€"])
    let needle := Value.text "ß€"
    EndsWith strpos ⟨[text, ("needle", [needle])]⟩ [.number 1] ∧
      EndsWith length ⟨[("text", [needle])]⟩ [.number 2] ∧
      EndsWith substr ⟨[text, ("start", [.number 1]), ("length", [.number 2])]⟩ [needle] ∧
      EndsWith substr ⟨[text, ("start", [.number 4]), ("length", [.number 18])]⟩ [needle] := by
  intro text needle
  obtain ⟨⟨x, hfinds, -, hfound⟩, hlength, hcounts, -, hparts, -⟩ :=
    positions_agree "aß€𝄞ß€" "ß€"
  have hinfix : "ß€".toList <:+: "aß€𝄞ß€".toList := ⟨['a'], "𝄞ß€".toList, by decide⟩
  obtain ⟨i, rfl, hleast, hcut⟩ := hfound hinfix
  have hfirst : firstIndex? "ß€".toList "aß€𝄞ß€".toList = some 1 := by decide
  obtain rfl : i = 1 := hleast.unique (firstIndex?_eq_some_iff.mp hfirst)
  have hfits : "aß€𝄞ß€".length ≤ greatestIndex := by decide
  have hthere := hcut hfits 1 2 (hcounts 1 (by decide)) (hcounts 2 (by decide))
  have hlast := (hparts 4 18 4 18 (hcounts 4 (by decide)) (hcounts 18 (by decide))).1 hfits
  exact ⟨hfinds _ rfl rfl, hlength _ rfl, hthere _ rfl rfl rfl rfl, hlast _ rfl rfl rfl rfl⟩

end CallScript.Builtin

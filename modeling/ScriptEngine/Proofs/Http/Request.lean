import Mathlib
import ScriptEngine.Http.Message
import ScriptEngine.Proofs.Text.Utf8

/-!
# Requests are read back as written

A request is written as its request line, header lines, a blank line and the bytes of the body, each
line ended by a carriage return and a line feed. The reader finds the method, the target and the
length that a header announces, and takes exactly that many bytes as the body.
-/
namespace ScriptEngine

namespace Text

theorem trimEnd_append_blanks (cs : List Char) {bs : List Char} (hbs : ∀ c ∈ bs, isBlank c) :
    trimEnd (cs ++ bs) = trimEnd cs := by
  rw [trimEnd, trimEnd, List.reverse_append, List.dropWhile_append_of_pos]
  simpa using hbs

/-- Only blanks are trimmed. -/
theorem exists_trimEnd (cs : List Char) : ∃ bs, cs = trimEnd cs ++ bs := by
  refine ⟨(cs.reverse.takeWhile isBlank).reverse, ?_⟩
  rw [trimEnd, ← List.reverse_append, List.takeWhile_append_dropWhile, List.reverse_reverse]

theorem trimEnd_eq_nil {cs : List Char} : trimEnd cs = [] ↔ ∀ c ∈ cs, isBlank c := by
  simp [trimEnd, List.dropWhile_eq_nil_iff]

/-- What words are made of. -/
structure IsWord (cs : List Char) : Prop where
  nonempty : cs ≠ []
  blankless : ∀ c ∈ cs, isBlank c = false

theorem trimEnd_word (cs : List Char) {word : List Char} (hword : IsWord word) :
    trimEnd (cs ++ word) = cs ++ word := by
  obtain ⟨init, last, rfl⟩ := (List.eq_nil_or_concat word).resolve_left hword.nonempty
  have hlast : isBlank last = false := hword.blankless last (by simp)
  simp [trimEnd, hlast]

theorem trim_word {b : Char} (hb : isBlank b) {word : List Char} (hword : IsWord word) :
    trim (b :: word) = word := by
  have hstart : trimStart word = word := by
    obtain ⟨c, word, rfl⟩ := List.exists_cons_of_ne_nil hword.nonempty
    exact List.dropWhile_cons_of_neg (by simp [hword.blankless c List.mem_cons_self])
  rw [trim, trimStart, List.dropWhile_cons_of_pos hb, ← trimStart, hstart]
  simpa using trimEnd_word [] hword

/-- Digits are a word. -/
theorem isWord_toDigits (n : Nat) : IsWord (Nat.toDigits 10 n) where
  nonempty := Nat.toDigits_ne_nil
  blankless c hc := by
    have hdigit : 48 ≤ c.toNat ∧ c.toNat ≤ 57 :=
      Char.isDigit_iff_toNat.1 (Nat.isDigit_of_mem_toDigits (by decide) (by decide) hc)
    have hplain : ∀ n < 58, 48 ≤ n → blanks.covers n = false := by decide
    exact hplain _ (Nat.lt_succ_of_le hdigit.2) hdigit.1

theorem wordsFrom_append {cs : List Char} (hcs : ∀ c ∈ cs, isBlank c = false)
    (word rest : List Char) :
    wordsFrom word (cs ++ rest) = wordsFrom (cs.reverse ++ word) rest := by
  induction cs generalizing word with
  | nil => rfl
  | cons c cs ih =>
    obtain ⟨hc, hcs⟩ := List.forall_mem_cons.1 hcs
    rw [List.cons_append, wordsFrom, hc]
    simpa using ih hcs (c :: word)

/-- The first of several words. -/
theorem words_cons {cs : List Char} (hcs : IsWord cs) {b : Char} (hb : isBlank b)
    (rest : List Char) : words (cs ++ b :: rest) = cs :: words rest := by
  rw [words, wordsFrom_append hcs.blankless, wordsFrom, if_pos hb]
  simp [hcs.nonempty, words]

end Text

namespace Http
open Text (encodeChars isBlank trimEnd IsWord)

/-- The characters of a line as it goes over the wire. -/
def lineChars (line : String) : List Char := line.toList ++ ['\r', '\n']

/-- The bytes of a line as it goes over the wire. -/
def lineBytes (line : String) : List UInt8 := Text.encode (line ++ "\r\n")

theorem lineBytes_eq (line : String) : lineBytes line = encodeChars (lineChars line) := by
  rw [lineBytes, Text.encode_eq, lineChars, String.toList_append]
  rfl

theorem takeLine_append {front : List UInt8} (hfront : 10 ∉ front) (rest : List UInt8) :
    takeLine (front ++ 10 :: rest) = (front ++ [10], rest) := by
  induction front with
  | nil => rfl
  | cons b front ih =>
    have hb : b ≠ 10 := fun hb => hfront (hb ▸ List.mem_cons_self)
    rw [List.cons_append, takeLine, if_neg hb, ih fun hmem => hfront (List.mem_cons_of_mem b hmem)]
    rfl

theorem takeLine_lineBytes {line : String} (hline : '\n' ∉ line.toList) (rest : List UInt8) :
    takeLine (lineBytes line ++ rest) = (lineBytes line, rest) := by
  have hfront : 10 ∉ encodeChars (line.toList ++ ['\r']) :=
    Text.lineFeed_not_mem_encodeChars (by simpa using hline)
  have hbytes : lineBytes line = encodeChars (line.toList ++ ['\r']) ++ [10] := by
    rw [lineBytes_eq, lineChars, Text.encodeChars_append, Text.encodeChars_append,
      List.append_assoc]
    rfl
  rw [hbytes, List.append_assoc, List.singleton_append, takeLine_append hfront]

theorem decode_lineBytes (line : String) :
    Text.decodeFrom? .start (lineBytes line) = some (lineChars line) := by
  rw [lineBytes_eq, Text.decodeFrom?_encodeChars]

theorem trimEnd_lineChars (line : String) : trimEnd (lineChars line) = trimEnd line.toList :=
  Text.trimEnd_append_blanks _ (List.all_eq_true.1 (by decide))

/-- Where a text is split does not depend on what follows. -/
theorem splitAtFirst?_append {c : Char} {cs before after : List Char}
    (h : splitAtFirst? c cs = some (before, after)) (more : List Char) :
    splitAtFirst? c (cs ++ more) = some (before, after ++ more) := by
  induction cs generalizing before with
  | nil => cases h
  | cons d cs ih =>
    by_cases hd : d = c
    · subst hd
      obtain ⟨rfl, rfl⟩ : [] = before ∧ cs = after := by simpa [splitAtFirst?] using h
      simp [splitAtFirst?]
    · have hstep (cs : List Char) : splitAtFirst? c (d :: cs) =
          (splitAtFirst? c cs).map (Prod.map (d :: ·) id) := by
        simp [splitAtFirst?, hd]
        split <;> rfl
      rw [hstep] at h
      obtain ⟨⟨before, after'⟩, hcs, hsome⟩ := Option.map_eq_some_iff.1 h
      obtain ⟨rfl, rfl⟩ := by simpa using hsome
      rw [List.cons_append, hstep, ih hcs, Option.map_some, Prod.map_apply, id_eq]

/-! Header lines -/

/-- A header that says nothing of the length of the body. -/
structure IsOtherHeader (line : String) : Prop where
  single : '\n' ∉ line.toList
  text : ∃ c ∈ line.toList, isBlank c = false
  name : ∀ header ∈ splitAtFirst? ':' line.toList, isNamed "content-length" header.1 = false

/-- The header with the length of the body. -/
def lengthHeader (n : Nat) : String := "Content-Length: " ++ toString n

variable {length : Nat} {rest : List UInt8}

theorem readHeaders_end (fuel : Nat) :
    readHeaders (fuel + 1) length (lineBytes "" ++ rest) = .ok (length, rest) := by
  rw [readHeaders, takeLine_lineBytes (by simp)]
  simp only [decode_lineBytes, trimEnd_lineChars]
  rfl

theorem readHeaders_other {line : String} (hline : IsOtherHeader line) (fuel : Nat) :
    readHeaders (fuel + 1) length (lineBytes line ++ rest) = readHeaders fuel length rest := by
  have htext : ¬ (trimEnd line.toList).isEmpty := by
    obtain ⟨c, hc, hblank⟩ := hline.text
    rw [List.isEmpty_iff, Text.trimEnd_eq_nil]
    exact fun hall => by simp [hall c hc] at hblank
  rw [readHeaders, takeLine_lineBytes hline.single]
  simp only [decode_lineBytes, trimEnd_lineChars, if_neg htext]
  split
  case h_1 => rfl
  case h_2 name value hsplit =>
    obtain ⟨bs, hbs⟩ := Text.exists_trimEnd line.toList
    have hname : isNamed "content-length" name = false :=
      hline.name (name, value ++ bs) (hbs ▸ splitAtFirst?_append hsplit bs)
    rw [if_neg (by simp [hname])]

/-- A length is read as it is written, unless it does not fit a machine word. -/
theorem parseLength_toDigits (n : Nat) :
    parseLength (Nat.toDigits 10 n) = if n < 2 ^ 64 then some n else none := by
  have hdigits : ∀ c ∈ Nat.toDigits 10 n, c.isDigit := fun c hc =>
    Nat.isDigit_of_mem_toDigits (by decide) (by decide) hc
  have hvalue : (Nat.toDigits 10 n).foldl (fun n d => 10 * n + (d.toNat - '0'.toNat)) 0 = n := by
    rw [← Nat.ofDigitChars_eq_foldl, Nat.ofDigitChars_ten_toDigits]
  unfold parseLength
  extract_lets ds m
  have hds : ds = Nat.toDigits 10 n := by
    unfold ds
    split
    case h_1 rest hplus => exact absurd (hdigits '+' (hplus ▸ List.mem_cons_self)) (by decide)
    case h_2 => rfl
  have hm : m = n := by rw [← hvalue, ← hds]
  rw [hm, hds, if_neg (by simpa using hdigits)]
  rfl

theorem readHeaders_length (n fuel : Nat) :
    readHeaders (fuel + 1) length (lineBytes (lengthHeader n) ++ rest) =
      if n < 2 ^ 64 then readHeaders fuel n rest else .error .badLength := by
  have hchars : (lengthHeader n).toList =
      "Content-Length:".toList ++ ' ' :: Nat.toDigits 10 n := by
    change ("Content-Length: " ++ toString n).toList = _
    simp
  have hword := Text.isWord_toDigits n
  have htrim : trimEnd (lengthHeader n).toList = (lengthHeader n).toList := by
    rw [hchars, List.append_cons]
    exact Text.trimEnd_word _ hword
  have hname : splitAtFirst? ':' "Content-Length:".toList = some ("Content-Length".toList, []) := by
    decide
  have hsplit : splitAtFirst? ':' (lengthHeader n).toList =
      some ("Content-Length".toList, ' ' :: Nat.toDigits 10 n) := by
    rw [hchars]
    exact splitAtFirst?_append hname _
  have hsingle : '\n' ∉ (lengthHeader n).toList := by
    have hdigits : '\n' ∉ Nat.toDigits 10 n := fun h => absurd (hword.blankless _ h) (by decide)
    simp [hchars, hdigits]
  have hnonempty : ¬ (lengthHeader n).toList.isEmpty := by simp [hchars]
  have hnamed : isNamed "content-length" "Content-Length".toList := by decide
  rw [readHeaders, takeLine_lineBytes hsingle]
  simp only [decode_lineBytes, trimEnd_lineChars, htrim, hsplit, if_neg hnonempty, if_pos hnamed,
    Text.trim_word (show isBlank ' ' by decide) hword, parseLength_toDigits]
  by_cases hn : n < 2 ^ 64
  · simp only [if_pos hn]
  · simp only [if_neg hn]

theorem readHeaders_others {lines : List String} (hlines : ∀ line ∈ lines, IsOtherHeader line)
    (fuel : Nat) :
    readHeaders (lines.length + fuel) length (lines.flatMap lineBytes ++ rest) =
      readHeaders fuel length rest := by
  induction lines with
  | nil => simp
  | cons line lines ih =>
    obtain ⟨hline, hlines⟩ := List.forall_mem_cons.1 hlines
    rw [List.length_cons, Nat.add_right_comm, List.flatMap_cons, List.append_assoc,
      readHeaders_other hline, ih hlines]

/-! Requests -/

/-- The first line of a request. -/
def requestLine (method target : String) : String := method ++ " " ++ target ++ " HTTP/1.1"

/-- What stands before the body of a request. -/
def head (method target : String) (headers : List String) : List UInt8 :=
  lineBytes (requestLine method target) ++ headers.flatMap lineBytes ++ lineBytes ""

/-- What is wrong with a request whose header announces `n` bytes, where fewer follow or `n` is too
large. -/
def lengthError (n : Nat) : RequestError :=
  if n ≤ maxBody then .shortBody else if n < 2 ^ 64 then .tooLarge else .badLength

variable {method target : String} {before after : List String} {n : Nat}

theorem length_le_flatMap_lineBytes (lines : List String) :
    lines.length ≤ (lines.flatMap lineBytes).length := by
  induction lines with
  | nil => simp
  | cons line lines ih =>
    have hline : lineBytes line ≠ [] := by
      intro hempty
      have hdecode := decode_lineBytes line
      simp [hempty, Text.decodeFrom?, lineChars] at hdecode
    have hlength : 1 ≤ (lineBytes line).length := List.length_pos_iff.2 hline
    rw [List.length_cons, List.flatMap_cons, List.length_append]
    omega

/-- The headers of a request give the length that one of them announces. -/
theorem readHeaders_written (hothers : ∀ line ∈ before ++ after, IsOtherHeader line)
    (following : List UInt8) {fuel : Nat} (hfuel : before.length + after.length + 2 ≤ fuel) :
    readHeaders fuel 0
        ((before ++ lengthHeader n :: after).flatMap lineBytes ++ lineBytes "" ++ following) =
      if n < 2 ^ 64 then .ok (n, following) else .error .badLength := by
  obtain ⟨hbefore, hafter⟩ := List.forall_mem_append.1 hothers
  obtain ⟨fuel, rfl⟩ : ∃ m, fuel = before.length + (after.length + (m + 1) + 1) :=
    ⟨fuel - before.length - after.length - 2, by omega⟩
  simp only [List.flatMap_append, List.flatMap_cons, List.append_assoc]
  rw [readHeaders_others hbefore, readHeaders_length]
  split
  case isTrue => rw [readHeaders_others hafter, readHeaders_end]
  case isFalse => rfl

/-- The request line gives the method and the target. -/
theorem words_requestLine (hmethod : IsWord method.toList) (htarget : IsWord target.toList) :
    ∃ more, Text.words (lineChars (requestLine method target)) =
      method.toList :: target.toList :: more := by
  have hchars : lineChars (requestLine method target) =
      method.toList ++ ' ' :: (target.toList ++ ' ' :: lineChars "HTTP/1.1") := by
    simp [lineChars, requestLine]
  rw [hchars, Text.words_cons hmethod (by decide), Text.words_cons htarget (by decide)]
  exact ⟨_, rfl⟩

theorem single_requestLine (hmethod : IsWord method.toList) (htarget : IsWord target.toList) :
    '\n' ∉ (requestLine method target).toList := by
  have hword {s : String} (hs : IsWord s.toList) : '\n' ∉ s.toList :=
    fun h => absurd (hs.blankless _ h) (by decide)
  simp [requestLine, hword hmethod, hword htarget]

end Http

/-- A request is read back as it was written. Its method and target are words, one of its headers
gives the length `n` of the body and none of the others does; the body is exactly the `n` bytes that
follow. Where fewer follow, or `n` is larger than the largest body, there is no request. -/
theorem Http.readRequest_written {method target : String} {before after : List String} {n : Nat}
    (hmethod : Text.IsWord method.toList) (htarget : Text.IsWord target.toList)
    (hothers : ∀ line ∈ before ++ after, IsOtherHeader line) :
    (∀ body more, body.length = n → n ≤ maxBody →
      readRequest (head method target (before ++ lengthHeader n :: after) ++ (body ++ more)) =
        .ok ⟨method, String.ofList (target.toList.takeWhile (· != '?')),
          Text.decodeLossy body⟩) ∧
    (∀ following, following.length < n ∨ maxBody < n →
      readRequest (head method target (before ++ lengthHeader n :: after) ++ following) =
        .error (lengthError n)) := by
  obtain ⟨more, hwords⟩ := words_requestLine hmethod htarget
  have hread (following : List UInt8) : readRequest
      (head method target (before ++ lengthHeader n :: after) ++ following) =
        if n < 2 ^ 64 then
          if maxBody < n then .error .tooLarge
          else if following.length < n then .error .shortBody
          else .ok ⟨method, String.ofList (target.toList.takeWhile (· != '?')),
            Text.decodeLossy (following.take n)⟩
        else .error .badLength := by
    have hfuel := length_le_flatMap_lineBytes (before ++ lengthHeader n :: after)
    simp only [List.length_append, List.length_cons] at hfuel
    rw [readRequest, head, List.append_assoc, List.append_assoc,
      takeLine_lineBytes (single_requestLine hmethod htarget)]
    simp only [decode_lineBytes, hwords, ← List.append_assoc]
    rw [readHeaders_written hothers following (by simp only [List.length_append]; omega)]
    by_cases hn : n < 2 ^ 64
    · simp only [if_pos hn, String.ofList_toList]
    · simp only [if_neg hn]
  have hlarge : maxBody < 2 ^ 64 := by decide
  refine ⟨fun body more hbody hn => ?_, fun following h => ?_⟩
  · rw [hread, if_pos (by omega), if_neg (by omega), if_neg (by simp; omega), ← hbody,
      List.take_left]
  · rw [hread, lengthError]
    by_cases hn : n ≤ maxBody
    · rw [if_pos (by omega), if_neg (by omega), if_pos (by omega), if_pos hn]
    · by_cases hword : n < 2 ^ 64
      · rw [if_pos hword, if_pos (by omega), if_neg hn, if_pos hword]
      · rw [if_neg hword, if_neg hn, if_neg hword]

/-- The query goes, a header that only speaks of a length does not matter, and neither does what
follows the body. -/
theorem Http.items_read :
    readRequest (head "POST" "/items?debug=1"
        (["Host: x"] ++ lengthHeader 5 :: ["Note: content-length: 7"]) ++
        ([104, 101, 108, 108, 111] ++ [13, 10])) = .ok ⟨"POST", "/items", "hello"⟩ ∧
      readRequest (head "POST" "/items?debug=1"
        (["Host: x"] ++ lengthHeader 5 :: ["Note: content-length: 7"]) ++ [104, 105]) =
        .error .shortBody := by
  have hword {s : String} (hs : s.toList ≠ []) (hall : s.toList.all (!Text.isBlank ·)) :
      Text.IsWord s.toList :=
    ⟨hs, fun c hc => by simpa using List.all_eq_true.1 hall c hc⟩
  have hhost : IsOtherHeader "Host: x" := ⟨by decide, ⟨'H', by decide, by decide⟩, by decide⟩
  have hnote : IsOtherHeader "Note: content-length: 7" :=
    ⟨by decide, ⟨'N', by decide, by decide⟩, by decide⟩
  have hmethod : Text.IsWord "POST".toList := hword (by decide) (by decide)
  have htarget : Text.IsWord "/items?debug=1".toList := hword (by decide) (by decide)
  have hothers : ∀ line ∈ ["Host: x"] ++ ["Note: content-length: 7"], IsOtherHeader line := by
    simp [hhost, hnote]
  have hread := readRequest_written (n := 5) hmethod htarget hothers
  exact ⟨hread.1 [104, 101, 108, 108, 111] [13, 10] rfl (by decide),
    hread.2 [104, 105] (by decide)⟩

end ScriptEngine

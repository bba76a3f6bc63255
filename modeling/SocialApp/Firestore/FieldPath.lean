import Mathlib.Data.List.Basic
import Mathlib.Data.String.Basic

/-! # Paths of fields

The Firestore library that the app is built with names a field of a document by the path of
its segments.  A path goes to the server as one text, with the segments that are no
identifiers between backticks, and what comes from the server is read back.

A `std::string` is the list of its characters here: a byte that the code looks for is
ASCII, and no other character has such a byte. -/

namespace SocialApp
namespace Firestore

abbrev FieldPath := List String

def backtick : Char := Char.ofNat 96

/-- The character that ends a C string. -/
def nul : Char := Char.ofNat 0

/-! ## Writing a path -/

def isIdentifierStart (c : Char) : Bool :=
  c = '_' || ('a' ≤ c && c ≤ 'z') || ('A' ≤ c && c ≤ 'Z')

def isIdentifierRest (c : Char) : Bool := isIdentifierStart c || ('0' ≤ c && c ≤ '9')

/-- `IsValidIdentifier`: a segment that needs no escaping. -/
def isValidIdentifier : List Char → Bool
  | [] => false
  | c :: cs => isIdentifierStart c && cs.all isIdentifierRest

/-- `StrReplaceAll`, which replaces backslashes and backticks in one pass. -/
def escape (segment : List Char) : List Char :=
  segment.flatMap fun c => if c = '\\' ∨ c = backtick then ['\\', c] else [c]

def escapedSegment (segment : String) : List Char :=
  let escaped := escape segment.toList
  if isValidIdentifier escaped then escaped else backtick :: escaped ++ [backtick]

/-- `absl::StrJoin` with `JoinEscaped`. -/
def joinEscaped : FieldPath → List Char
  | [] => []
  | [segment] => escapedSegment segment
  | segment :: path => escapedSegment segment ++ '.' :: joinEscaped path

def canonicalString (path : FieldPath) : String := String.ofList (joinEscaped path)

/-! ## Reading a path -/

def emptySegment (path : String) : String :=
  "Invalid field path (" ++ path ++ "). Paths must not be empty, begin with " ++
    "'.', end with '.', or contain '..'"

/-- `finish_segment` after the last character, and the check for an open backtick. -/
def finish (path : String) (segments : FieldPath) (segment : List Char) (inside : Bool) :
    Except String FieldPath :=
  if segment = [] then .error (emptySegment path)
  else if inside then .error ("Unterminated ` in path " ++ path)
  else .ok (segments ++ [String.ofList segment])

/-- The loop over the characters that are left, with the segments that are finished, the
one being read, and whether it is inside backticks. -/
def readSegments (path : String) (segments : FieldPath) (segment : List Char) (inside : Bool) :
    List Char → Except String FieldPath
  | [] => finish path segments segment inside
  | c :: rest =>
    if c = nul then finish path segments segment inside
    else if c = '.' then
      if inside then readSegments path segments (segment ++ [c]) inside rest
      else if segment = [] then .error (emptySegment path)
      else readSegments path (segments ++ [String.ofList segment]) [] inside rest
    else if c = backtick then readSegments path segments segment (!inside) rest
    else if c = '\\' then
      match rest with
      | [] => .error ("Trailing escape characters not allowed in " ++ path)
      | d :: rest => readSegments path segments (segment ++ [d]) inside rest
    else readSegments path segments (segment ++ [c]) inside rest

def fromServerFormat (path : String) : Except String FieldPath :=
  readSegments path [] [] false path.toList

/-- `absl::StrSplit` at the dots. -/
def splitAtDots : List Char → List (List Char)
  | [] => [[]]
  | c :: rest =>
    if c = '.' then [] :: splitAtDots rest
    else match splitAtDots rest with
      | [] => [[c]]
      | segment :: segments => (c :: segment) :: segments

def fromDotSeparatedString (path : String) : Except String FieldPath :=
  if path.toList.any fun c => c ∈ ['~', '*', '/', '[', ']'] then
    .error ("Invalid field path (" ++ path ++ "). Paths must not contain '~', '*', '/', '[', " ++
      "or ']'")
  else if (splitAtDots path.toList).any fun segment => segment = [] then
    .error (emptySegment path)
  else .ok ((splitAtDots path.toList).map String.ofList)

/-! ## What is read is what was written -/

variable {path : String} {segments : FieldPath} {segment : List Char} {inside : Bool}

theorem isIdentifierRest_plain {c : Char} (h : isIdentifierRest c = true) :
    c ≠ nul ∧ c ≠ '.' ∧ c ≠ backtick ∧ c ≠ '\\' := by
  refine ⟨?_, ?_, ?_, ?_⟩
  all_goals
    rintro rfl
    exact absurd h (by decide)

theorem isIdentifierRest_of_valid {cs : List Char} (h : isValidIdentifier cs = true) :
    ∀ c ∈ cs, isIdentifierRest c = true := by
  cases cs with
  | nil => exact absurd h (by simp [isValidIdentifier])
  | cons c cs =>
    rw [isValidIdentifier, Bool.and_eq_true, List.all_eq_true] at h
    intro d hd
    rcases List.mem_cons.mp hd with rfl | hd
    · rw [isIdentifierRest, h.1, Bool.true_or]
    · exact h.2 d hd

theorem readSegments_cons (c : Char) (rest : List Char) :
    readSegments path segments segment inside (c :: rest) =
      if c = nul then finish path segments segment inside
      else if c = '.' then
        if inside then readSegments path segments (segment ++ [c]) inside rest
        else if segment = [] then .error (emptySegment path)
        else readSegments path (segments ++ [String.ofList segment]) [] inside rest
      else if c = backtick then readSegments path segments segment (!inside) rest
      else if c = '\\' then
        match rest with
        | [] => .error ("Trailing escape characters not allowed in " ++ path)
        | d :: rest => readSegments path segments (segment ++ [d]) inside rest
      else readSegments path segments (segment ++ [c]) inside rest := by
  rw [readSegments.eq_def]

/-- A character without a meaning of its own is a part of the segment. -/
theorem readSegments_plain {c : Char} (hnul : c ≠ nul) (hdot : c ≠ '.') (hback : c ≠ backtick)
    (hslash : c ≠ '\\') (rest : List Char) :
    readSegments path segments segment inside (c :: rest) =
      readSegments path segments (segment ++ [c]) inside rest := by
  rw [readSegments_cons, if_neg hnul, if_neg hdot, if_neg hback, if_neg hslash]

theorem readSegments_backtick (rest : List Char) :
    readSegments path segments segment inside (backtick :: rest) =
      readSegments path segments segment (!inside) rest := by
  rw [readSegments_cons, if_neg (by decide), if_neg (by decide), if_pos rfl]

theorem readSegments_escaped (c : Char) (rest : List Char) :
    readSegments path segments segment inside ('\\' :: c :: rest) =
      readSegments path segments (segment ++ [c]) inside rest := by
  rw [readSegments_cons, if_neg (by decide), if_neg (by decide), if_neg (by decide), if_pos rfl]

theorem readSegments_nul (rest : List Char) :
    readSegments path segments segment inside (nul :: rest) =
      finish path segments segment inside := by
  rw [readSegments_cons, if_pos rfl]

theorem readSegments_identifier {cs : List Char} (h : ∀ c ∈ cs, isIdentifierRest c = true)
    (rest : List Char) :
    readSegments path segments segment inside (cs ++ rest) =
      readSegments path segments (segment ++ cs) inside rest := by
  induction cs generalizing segment with
  | nil => rw [List.nil_append, List.append_nil]
  | cons c cs ih =>
    obtain ⟨hnul, hdot, hback, hslash⟩ := isIdentifierRest_plain (h c List.mem_cons_self)
    rw [List.cons_append, readSegments_plain hnul hdot hback hslash,
      ih fun d hd => h d (List.mem_cons_of_mem c hd), List.append_assoc]
    rfl

/-- Inside backticks a segment is read as it was before it was escaped. -/
theorem readSegments_escape {cs : List Char} (h : nul ∉ cs) (rest : List Char) :
    readSegments path segments segment true (escape cs ++ rest) =
      readSegments path segments (segment ++ cs) true rest := by
  induction cs generalizing segment with
  | nil =>
    rw [List.append_nil]
    rfl
  | cons c cs ih =>
    obtain ⟨hnul, hrest⟩ := List.ne_and_not_mem_of_not_mem_cons h
    have hmore : segment ++ [c] ++ cs = segment ++ c :: cs := by
      rw [List.append_assoc]
      rfl
    rw [escape, List.flatMap_cons, List.append_assoc, ← hmore]
    by_cases hc : c = '\\' ∨ c = backtick
    · rw [if_pos hc]
      show readSegments _ _ _ _ ('\\' :: c :: (escape cs ++ rest)) = _
      rw [readSegments_escaped, ih hrest]
    · rw [if_neg hc]
      obtain ⟨hslash, hback⟩ := not_or.mp hc
      show readSegments _ _ _ _ (c :: (escape cs ++ rest)) = _
      by_cases hdot : c = '.'
      · rw [readSegments_cons, if_neg (Ne.symm hnul), if_pos hdot, if_pos rfl, ih hrest]
      · rw [readSegments_plain (Ne.symm hnul) hdot hback hslash, ih hrest]

/-- A segment that is an identifier once it is escaped has nothing to escape. -/
theorem escape_of_identifier {cs : List Char}
    (h : ∀ c ∈ escape cs, isIdentifierRest c = true) : escape cs = cs := by
  induction cs with
  | nil => rfl
  | cons c cs ih =>
    rw [escape, List.flatMap_cons] at h ⊢
    have hrest : escape cs = cs := ih fun d hd => h d (List.mem_append_right _ hd)
    by_cases hc : c = '\\' ∨ c = backtick
    · rw [if_pos hc] at h
      have hslash := h '\\' (List.mem_append_left _ List.mem_cons_self)
      exact absurd hslash (by decide)
    · rw [if_neg hc]
      exact congrArg (c :: ·) hrest

theorem readSegments_segment {s : String} (h : nul ∉ s.toList) (rest : List Char) :
    readSegments path segments [] false (escapedSegment s ++ rest) =
      readSegments path segments s.toList false rest := by
  unfold escapedSegment
  dsimp only
  cases hvalid : isValidIdentifier (escape s.toList) with
  | true =>
    have hidentifier := isIdentifierRest_of_valid hvalid
    rw [if_pos rfl, readSegments_identifier hidentifier, escape_of_identifier hidentifier]
    rfl
  | false =>
    rw [if_neg (by simp), List.append_assoc, List.cons_append, readSegments_backtick,
      Bool.not_false, readSegments_escape h]
    show readSegments _ _ _ _ (backtick :: rest) = _
    rw [readSegments_backtick]
    rfl

theorem finish_ok {q : FieldPath} (h : finish path segments segment inside = .ok q) :
    segment ≠ [] ∧ inside = false ∧ q = segments ++ [String.ofList segment] := by
  unfold finish at h
  split at h
  · exact absurd h (by simp)
  · rename_i hne
    cases inside with
    | true => exact absurd h (by simp)
    | false => exact ⟨hne, rfl, (Except.ok.inj h).symm⟩

theorem finish_done (hne : segment ≠ []) :
    finish path segments segment false = .ok (segments ++ [String.ofList segment]) := by
  unfold finish
  rw [if_neg hne]
  rfl

theorem readSegments_dot (hne : segment ≠ []) (rest : List Char) :
    readSegments path segments segment false ('.' :: rest) =
      readSegments path (segments ++ [String.ofList segment]) [] false rest := by
  rw [readSegments_cons, if_neg (by decide), if_pos rfl, if_neg (by simp), if_neg hne]

/-- The segments that can be written and read back. -/
def Readable (s : String) : Prop := s ≠ "" ∧ nul ∉ s.toList

theorem Readable.toList_ne_nil {s : String} (h : Readable s) : s.toList ≠ [] :=
  fun hnil => h.1 (String.toList_eq_nil_iff.mp hnil)

theorem readSegments_join {p : FieldPath} (hne : p ≠ []) (hp : ∀ s ∈ p, Readable s) :
    readSegments path segments [] false (joinEscaped p) = .ok (segments ++ p) := by
  induction p generalizing segments with
  | nil => exact absurd rfl hne
  | cons s p ih =>
    have hs := hp s List.mem_cons_self
    cases p with
    | nil =>
      show readSegments path segments [] false (escapedSegment s) = _
      rw [← List.append_nil (escapedSegment s), readSegments_segment hs.2]
      show finish path segments s.toList false = _
      rw [finish_done hs.toList_ne_nil, String.ofList_toList]
    | cons s' p =>
      show readSegments path segments [] false
        (escapedSegment s ++ '.' :: joinEscaped (s' :: p)) = _
      rw [readSegments_segment hs.2, readSegments_dot hs.toList_ne_nil, String.ofList_toList,
        ih (List.cons_ne_nil _ _) fun r hr => hp r (List.mem_cons_of_mem s hr),
        List.append_assoc]
      rfl

/-! ## What is read is well formed -/

theorem ofList_eq_empty {cs : List Char} (h : "" ∈ [String.ofList cs]) : cs = [] := by
  have hnil := String.toList_eq_nil_iff.mpr (List.mem_singleton.mp h).symm
  rwa [String.toList_ofList] at hnil

/-- Every segment that is read is nonempty. -/
theorem readSegments_wellFormed {cs : List Char} {q : FieldPath} (hsegments : "" ∉ segments)
    (h : readSegments path segments segment inside cs = .ok q) : q ≠ [] ∧ "" ∉ q := by
  have hdone : ∀ {segments segment inside}, "" ∉ segments →
      finish path segments segment inside = .ok q → q ≠ [] ∧ "" ∉ q := by
    intro segments segment inside hsegments h
    obtain ⟨hne, -, rfl⟩ := finish_ok h
    refine ⟨by simp, fun hmem => ?_⟩
    rcases List.mem_append.mp hmem with hmem | hmem
    · exact hsegments hmem
    · exact hne (ofList_eq_empty hmem)
  fun_induction readSegments path segments segment inside cs with
  | case1 segments segment inside => exact hdone hsegments h
  | case2 => exact hdone hsegments h
  | case3 _ _ _ _ ih => exact ih hsegments h
  | case4 => exact absurd h (by simp)
  | case5 _ segment _ _ _ hne _ ih =>
    refine ih (fun hmem => ?_) h
    rcases List.mem_append.mp hmem with hmem | hmem
    · exact hsegments hmem
    · exact hne (ofList_eq_empty hmem)
  | case6 _ _ _ _ _ _ ih => exact ih hsegments h
  | case7 => exact absurd h (by simp)
  | case8 _ _ _ _ _ _ _ _ ih => exact ih hsegments h
  | case9 _ _ _ _ _ _ _ _ _ ih => exact ih hsegments h

/-! ## What cannot be read back -/

/-- The backticks of a segment that has a NUL are never closed. -/
theorem readSegments_unreadable (path : String) (segments : FieldPath) {s : String}
    (h : nul ∈ s.toList) (rest : List Char) :
    ∃ message, readSegments path segments [] false (escapedSegment s ++ rest) =
      .error message := by
  obtain ⟨before, after, hsplit, hbefore⟩ := List.eq_append_cons_of_mem h
  have hescape : escape s.toList = escape before ++ nul :: escape after := by
    rw [hsplit, escape, List.flatMap_append, List.flatMap_cons, if_neg (by decide)]
    rfl
  have hvalid : isValidIdentifier (escape s.toList) = false := by
    refine Bool.eq_false_iff.mpr fun hvalid => ?_
    have hnul := isIdentifierRest_of_valid hvalid nul (by simp [hescape])
    exact absurd hnul (by decide)
  have hread : readSegments path segments [] false (escapedSegment s ++ rest) =
      finish path segments before true := by
    unfold escapedSegment
    dsimp only
    rw [hvalid, if_neg (by simp), List.append_assoc, List.cons_append, readSegments_backtick,
      Bool.not_false, hescape, List.append_assoc, readSegments_escape hbefore]
    exact readSegments_nul _
  rw [hread, finish]
  split
  · exact ⟨_, rfl⟩
  · exact ⟨_, rfl⟩

theorem readSegments_join_ok {p q : FieldPath}
    (h : readSegments path segments [] false (joinEscaped p) = .ok q) :
    p ≠ [] ∧ ∀ s ∈ p, Readable s := by
  induction p generalizing segments with
  | nil => exact absurd rfl (finish_ok h).1
  | cons s p ih =>
    refine ⟨List.cons_ne_nil s p, ?_⟩
    have hnul : nul ∉ s.toList := by
      intro hnul
      have herror : ∀ rest, readSegments path segments [] false (escapedSegment s ++ rest) ≠
          .ok q := by
        intro rest
        obtain ⟨message, hmessage⟩ := readSegments_unreadable path segments hnul rest
        rw [hmessage]
        simp
      cases p with
      | nil => exact herror [] (by rwa [List.append_nil])
      | cons s' p => exact herror _ h
    cases p with
    | nil =>
      rw [joinEscaped, ← List.append_nil (escapedSegment s), readSegments_segment hnul] at h
      rintro r hr
      rw [List.mem_singleton.mp hr]
      exact ⟨fun hempty => (finish_ok h).1 (String.toList_eq_nil_iff.mpr hempty), hnul⟩
    | cons s' p =>
      change readSegments path segments [] false
        (escapedSegment s ++ '.' :: joinEscaped (s' :: p)) = _ at h
      rw [readSegments_segment hnul] at h
      have hne : s.toList ≠ [] := by
        intro hnil
        rw [hnil, readSegments_cons, if_neg (by decide), if_pos rfl, if_neg (by simp),
          if_pos rfl] at h
        exact absurd h (by simp)
      rw [readSegments_dot hne] at h
      intro r hr
      rcases List.mem_cons.mp hr with rfl | hr
      · exact ⟨fun hempty => hne (String.toList_eq_nil_iff.mpr hempty), hnul⟩
      · exact (ih h).2 r hr

theorem fromServerFormat_ok {p q : FieldPath}
    (h : fromServerFormat (canonicalString p) = .ok q) : p ≠ [] ∧ ∀ s ∈ p, Readable s := by
  rw [fromServerFormat, canonicalString, String.toList_ofList] at h
  exact readSegments_join_ok h

theorem fromServerFormat_canonicalString (p : FieldPath) :
    fromServerFormat (canonicalString p) = .ok p ↔ p ≠ [] ∧ ∀ s ∈ p, Readable s := by
  refine ⟨fromServerFormat_ok, fun h => ?_⟩
  rw [fromServerFormat, canonicalString, String.toList_ofList, readSegments_join h.1 h.2]
  rfl

/-- A path is read back from its text just when it has a segment and each is readable, and
its text is read as no other path.  Whatever text is read, the path has a segment and no
empty one. -/
theorem path_read_back (p : FieldPath) :
    (fromServerFormat (canonicalString p) = .ok p ↔ p ≠ [] ∧ ∀ s ∈ p, Readable s) ∧
      (∀ q, fromServerFormat (canonicalString p) = .ok q → q = p) ∧
      ∀ text, fromServerFormat text = .ok p → p ≠ [] ∧ "" ∉ p := by
  refine ⟨fromServerFormat_canonicalString p, fun q h => ?_, fun text h => ?_⟩
  · have hp := (fromServerFormat_canonicalString p).mpr (fromServerFormat_ok h)
    exact (Except.ok.inj (hp.symm.trans h)).symm
  · exact readSegments_wellFormed (by simp) h

/-! ## The keys of an update -/

theorem splitAtDots_ne_nil (cs : List Char) : splitAtDots cs ≠ [] := by
  cases cs with
  | nil => exact List.cons_ne_nil _ _
  | cons c cs =>
    unfold splitAtDots
    split
    · exact List.cons_ne_nil _ _
    · split
      · exact List.cons_ne_nil _ _
      · exact List.cons_ne_nil _ _

theorem splitAtDots_dot (cs : List Char) : splitAtDots ('.' :: cs) = [] :: splitAtDots cs := by
  rw [splitAtDots, if_pos rfl]

theorem splitAtDots_plain {c : Char} (hc : c ≠ '.') {cs s : List Char} {ss : List (List Char)}
    (h : splitAtDots cs = s :: ss) : splitAtDots (c :: cs) = (c :: s) :: ss := by
  rw [splitAtDots, if_neg hc, h]

theorem mem_splitAtDots {c : Char} (hc : c ≠ '.') (cs : List Char) :
    c ∈ cs ↔ ∃ s ∈ splitAtDots cs, c ∈ s := by
  induction cs with
  | nil => simp [splitAtDots]
  | cons d cs ih =>
    rw [List.mem_cons, ih]
    by_cases hd : d = '.'
    · subst hd
      rw [splitAtDots_dot]
      simp [hc]
    · obtain ⟨s, ss, hsplit⟩ := List.exists_cons_of_ne_nil (splitAtDots_ne_nil cs)
      rw [splitAtDots_plain hd hsplit, hsplit]
      simp [or_assoc]

/-- Without escapes the reader splits a text at its dots. -/
theorem readSegments_dots {cs s : List Char} {ss : List (List Char)}
    (hplain : ∀ c ∈ cs, c ≠ nul ∧ c ≠ backtick ∧ c ≠ '\\') (hsplit : splitAtDots cs = s :: ss)
    (hs : segment ++ s ≠ []) (hss : [] ∉ ss) :
    readSegments path segments segment false cs =
      .ok (segments ++ String.ofList (segment ++ s) :: ss.map String.ofList) := by
  induction cs generalizing segments segment s ss with
  | nil =>
    obtain ⟨rfl, rfl⟩ := List.cons_eq_cons.mp (hsplit : [[]] = s :: ss)
    rw [List.append_nil] at hs ⊢
    exact finish_done hs
  | cons c cs ih =>
    obtain ⟨hnul, hback, hslash⟩ := hplain c List.mem_cons_self
    have hrest : ∀ d ∈ cs, d ≠ nul ∧ d ≠ backtick ∧ d ≠ '\\' :=
      fun d hd => hplain d (List.mem_cons_of_mem c hd)
    obtain ⟨t, ts, ht⟩ := List.exists_cons_of_ne_nil (splitAtDots_ne_nil cs)
    by_cases hdot : c = '.'
    · subst hdot
      rw [splitAtDots_dot, ht] at hsplit
      obtain ⟨rfl, rfl⟩ := List.cons_eq_cons.mp hsplit
      obtain ⟨ht', hts⟩ := not_or.mp (fun h => hss (List.mem_cons.mpr h))
      rw [List.append_nil] at hs ⊢
      rw [readSegments_dot hs, ih hrest ht (show [] ++ t ≠ [] from Ne.symm ht') hts,
        List.append_assoc]
      rfl
    · rw [splitAtDots_plain hdot ht] at hsplit
      obtain ⟨rfl, rfl⟩ := List.cons_eq_cons.mp hsplit
      have hmore : segment ++ [c] ++ t = segment ++ c :: t := by
        rw [List.append_assoc]
        rfl
      rw [readSegments_plain hnul hdot hback hslash, ih hrest ht (by rwa [hmore]) hss, hmore]

theorem fromDotSeparatedString_ok {s : String} {p : FieldPath}
    (h : fromDotSeparatedString s = .ok p) :
    [] ∉ splitAtDots s.toList ∧ p = (splitAtDots s.toList).map String.ofList := by
  unfold fromDotSeparatedString at h
  split at h
  · exact absurd h (by simp)
  · split at h
    · exact absurd h (by simp)
    · rename_i hempty
      refine ⟨fun hmem => hempty ?_, (Except.ok.inj h).symm⟩
      exact List.any_eq_true.mpr ⟨[], hmem, by simp⟩

/-- What a key names goes to the server and back as the same path just when the key has no
NUL.  A key without backticks and backslashes is also read alike at both ends. -/
theorem key_names_one_field {s : String} {p : FieldPath}
    (h : fromDotSeparatedString s = .ok p) :
    (fromServerFormat (canonicalString p) = .ok p ↔ nul ∉ s.toList) ∧
      ((∀ c ∈ s.toList, c ≠ nul ∧ c ≠ backtick ∧ c ≠ '\\') → fromServerFormat s = .ok p) := by
  obtain ⟨hempty, rfl⟩ := fromDotSeparatedString_ok h
  obtain ⟨t, ts, hsplit⟩ := List.exists_cons_of_ne_nil (splitAtDots_ne_nil s.toList)
  constructor
  · rw [fromServerFormat_canonicalString, mem_splitAtDots (by decide)]
    constructor
    · rintro ⟨-, hreadable⟩ ⟨u, hu, hnul⟩
      refine (hreadable _ (List.mem_map_of_mem hu)).2 ?_
      rwa [String.toList_ofList]
    · intro hnul
      refine ⟨by simp [hsplit], fun r hr => ?_⟩
      obtain ⟨u, hu, rfl⟩ := List.mem_map.mp hr
      rw [Readable, String.toList_ofList]
      refine ⟨fun hr => hempty ?_, fun h => hnul ⟨u, hu, h⟩⟩
      rwa [← ofList_eq_empty (List.mem_singleton.mpr hr.symm)]
  · intro hplain
    rw [hsplit, List.mem_cons, not_or] at hempty
    rw [fromServerFormat, readSegments_dots hplain hsplit
      (show [] ++ t ≠ [] from Ne.symm hempty.1) hempty.2, hsplit]
    rfl

theorem key_names_one_field_uId : fromServerFormat (canonicalString ["uId"]) = .ok ["uId"] :=
  (key_names_one_field (show fromDotSeparatedString "uId" = .ok ["uId"] by decide)).1.mpr
    (by decide)

end Firestore
end SocialApp

import BajaDaq.RmcParser
import Mathlib.Data.List.Basic
import Mathlib.Data.List.GetD

/-!
# The grammar of RMC sentences

The parser's loop splits, bounds, validates and copies at once; it accepts exactly the sentences of
the grammar.
-/

namespace BajaDaq.RmcGrammar
open CStrings RmcParser

/-- The parts of a body between its commas. -/
def segments (body : Bytes) : List Bytes := body.splitOn ','.toUInt8

/-- The line is the sentence with this body. -/
structure RmcSentence (line body : Bytes) : Prop where
  starless : '*'.toUInt8 ∉ body
  framed : ∃ high low, line = '$'.toUInt8 :: (body ++ ['*'.toUInt8, high, low]) ∧
    isXdigit high = true ∧ isXdigit low = true ∧
    16 * hexValue high + hexValue low = (xorOf body).toNat
  printable : ∀ byte ∈ body, 32 ≤ byte ∧ byte ≤ 126
  enough : 10 ≤ (segments body).length
  short : ∀ segment ∈ segments body, segment.length < 24
  kind : ∃ a b, isUpper a = true ∧ isUpper b = true ∧
    (segments body)[0]? = some [a, b, 'R'.toUInt8, 'M'.toUInt8, 'C'.toUInt8]
  active : (segments body)[2]? = some ['A'.toUInt8]

/-- The fields after copying segments into them, from the given number on. -/
def storeAll : List Bytes → ℕ → Fields → Fields
  | [], _, fields => fields
  | segment :: rest, field, fields => storeAll rest (field + 1)
      (if field < 10 then fields.set field (memcpy (fields.getD field []) segment) else fields)

theorem checksum_eq (body : Bytes) : checksum body = (xorOf body).toNat := by
  have hloop : ∀ (bytes : Bytes) (sum : ℕ),
      bytes.foldl (fun sum p => sum ^^^ p.toNat) sum = sum ^^^ (xorOf bytes).toNat := by
    intro bytes
    induction bytes with
    | nil => simp [xorOf]
    | cons p bytes ih =>
      intro sum
      rw [List.foldl_cons, ih, xorOf, UInt8.toNat_xor, Nat.xor_assoc]
  rw [checksum, hloop, Nat.zero_xor]

theorem segments_nil : segments [] = [[]] := List.splitOn_nil _

theorem segments_comma (rest : Bytes) : segments (','.toUInt8 :: rest) = [] :: segments rest := by
  rw [segments, List.splitOn_cons_eq_if_modifyHead, if_pos (beq_self_eq_true _), segments]

theorem segments_cons {p : UInt8} (hp : p ≠ ','.toUInt8) (rest : Bytes) :
    segments (p :: rest) = (segments rest).modifyHead (p :: ·) := by
  rw [segments, List.splitOn_cons_eq_if_modifyHead, if_neg (mt eq_of_beq hp), segments]

theorem closeField_eq_some_iff {start : Bytes} {field : ℕ} {fields : Fields} {next : ℕ × Fields} :
    closeField start field fields = some next ↔
      start.length < 24 ∧ next = (field + 1, storeAll [start] field fields) := by
  by_cases hstart : start.length ≥ 24
  · simp [closeField, hstart, Nat.not_lt.mpr hstart]
  · simp [closeField, hstart, storeAll, Nat.lt_of_not_le hstart, eq_comm]

/-- At a comma a field is closed and the loop goes on with an empty one. -/
theorem splitLoop_comma {rest start : Bytes} {field : ℕ} {fields : Fields} {result : ℕ × Fields} :
    splitLoop (','.toUInt8 :: rest) start field fields = some result ↔
      start.length < 24 ∧
        splitLoop rest [] (field + 1) (storeAll [start] field fields) = some result := by
  rw [splitLoop, if_neg (not_not_intro rfl)]
  constructor
  · intro h
    obtain ⟨⟨field', fields'⟩, hclose, hrest⟩ := Option.bind_eq_some_iff.mp h
    obtain ⟨hstart, hnext⟩ := closeField_eq_some_iff.mp hclose
    obtain ⟨rfl, rfl⟩ := Prod.mk.inj hnext
    exact ⟨hstart, hrest⟩
  · rintro ⟨hstart, hrest⟩
    exact Option.bind_eq_some_iff.mpr ⟨_, closeField_eq_some_iff.mpr ⟨hstart, rfl⟩, hrest⟩

/-- Any other byte is checked and belongs to the current field. -/
theorem splitLoop_other {p : UInt8} (hcomma : p ≠ ','.toUInt8) {rest start : Bytes} {field : ℕ}
    {fields : Fields} {result : ℕ × Fields} :
    splitLoop (p :: rest) start field fields = some result ↔
      (32 ≤ p ∧ p ≤ 126) ∧ splitLoop rest (start ++ [p]) field fields = some result := by
  rw [splitLoop, if_pos hcomma]
  by_cases hp : p < 32 ∨ p > 126
  · rw [if_pos hp]
    simp only [reduceCtorEq, false_iff]
    rintro ⟨⟨hlow, hhigh⟩, -⟩
    rcases hp with hp | hp
    · exact absurd hp (UInt8.not_lt.mpr hlow)
    · exact absurd hp (UInt8.not_lt.mpr hhigh)
  · obtain ⟨hlow, hhigh⟩ := not_or.mp hp
    have hprintable : 32 ≤ p ∧ p ≤ 126 := ⟨UInt8.not_lt.mp hlow, UInt8.not_lt.mp hhigh⟩
    rw [if_neg hp, and_iff_right hprintable]

/-- The loop with the bytes `start` of the current field already read. -/
theorem splitLoop_eq_some_iff {rest start : Bytes} {field : ℕ} {fields : Fields}
    {result : ℕ × Fields} :
    splitLoop rest start field fields = some result ↔
      (∀ p ∈ rest, 32 ≤ p ∧ p ≤ 126) ∧
      (∀ segment ∈ (segments rest).modifyHead (start ++ ·), segment.length < 24) ∧
      result = (field + (segments rest).length,
        storeAll ((segments rest).modifyHead (start ++ ·)) field fields) := by
  induction rest generalizing start field fields with
  | nil =>
    rw [splitLoop, closeField_eq_some_iff, segments_nil]
    simp
  | cons p rest ih =>
    by_cases hcomma : p = ','.toUInt8
    · subst hcomma
      have hprintable : 32 ≤ ','.toUInt8 ∧ ','.toUInt8 ≤ 126 := by decide
      have hid : (segments rest).modifyHead ([] ++ ·) = segments rest := by
        cases segments rest <;> rfl
      have hcount : field + 1 + (segments rest).length = field + ([] :: segments rest).length := by
        rw [List.length_cons, Nat.add_right_comm, Nat.add_assoc]
      rw [splitLoop_comma, ih, hid, hcount, segments_comma, List.modifyHead_cons, List.append_nil,
        List.forall_mem_cons, List.forall_mem_cons, and_iff_right hprintable]
      exact ⟨fun ⟨hstart, hp, hshort, hresult⟩ => ⟨hp, ⟨hstart, hshort⟩, hresult⟩,
        fun ⟨hp, ⟨hstart, hshort⟩, hresult⟩ => ⟨hstart, hp, hshort, hresult⟩⟩
    · have hhead : (segments (p :: rest)).modifyHead (start ++ ·) =
          (segments rest).modifyHead (start ++ [p] ++ ·) := by
        rw [segments_cons hcomma, List.modifyHead_modifyHead]
        congr 1
        funext segment
        simp
      have hlength : (segments (p :: rest)).length = (segments rest).length := by
        rw [segments_cons hcomma, List.length_modifyHead]
      rw [splitLoop_other hcomma, ih, hhead, hlength, List.forall_mem_cons]
      exact and_assoc.symm

theorem length_storeAll (parts : List Bytes) (field : ℕ) (fields : Fields) :
    (storeAll parts field fields).length = fields.length := by
  induction parts generalizing field fields with
  | nil => rfl
  | cons segment rest ih =>
    rw [storeAll, ih]
    split
    · exact List.length_set
    · rfl

/-- The fields before the given number keep their bytes. -/
theorem storeAll_before {parts : List Bytes} {field i : ℕ} {fields : Fields} (hi : i < field) :
    (storeAll parts field fields).getD i [] = fields.getD i [] := by
  induction parts generalizing field fields with
  | nil => rfl
  | cons segment rest ih =>
    rw [storeAll, ih (Nat.lt_add_right 1 hi)]
    split
    · simp [List.getD, List.getElem?_set_ne (Nat.ne_of_gt hi)]
    · rfl

theorem storeAll_stored {parts : List Bytes} {field i : ℕ} {fields : Fields}
    (hten : fields.length = 10) (hi : i < parts.length) (hfield : field + i < 10) :
    (storeAll parts field fields).getD (field + i) [] =
      memcpy (fields.getD (field + i) []) (parts.getD i []) := by
  induction parts generalizing field i fields with
  | nil => exact absurd hi (Nat.not_lt_zero i)
  | cons segment rest ih =>
    rw [storeAll, if_pos (by omega)]
    cases i with
    | zero =>
      change List.getD _ field [] = memcpy (fields.getD field []) segment
      rw [storeAll_before (Nat.lt_add_one field)]
      simp [List.getD, show field < fields.length by omega]
    | succ i =>
      have hset : (fields.set field (memcpy (fields.getD field []) segment)).length = 10 :=
        List.length_set.trans hten
      rw [show field + (i + 1) = field + 1 + i by omega,
        ih hset (Nat.lt_of_succ_lt_succ hi) (by omega)]
      simp [List.getD, List.getElem?_set_ne (show field ≠ field + 1 + i by omega)]

theorem fieldAt_storeAll {parts : List Bytes} (hnul : ∀ segment ∈ parts, 0 ∉ segment)
    (hshort : ∀ segment ∈ parts, segment.length < 24) {i : ℕ} (hi : i < parts.length)
    (hten : i < 10) : fieldAt (storeAll parts 0 emptyFields) i = parts.getD i [] := by
  have hmem : parts.getD i [] ∈ parts := by
    rw [List.getD_eq_getElem _ _ hi]
    exact List.getElem_mem hi
  have hbuffer : emptyFields.getD (0 + i) [] = List.replicate 24 0 := by
    rw [emptyFields, List.getD_eq_getElem _ _ (by rw [List.length_replicate]; omega),
      List.getElem_replicate]
  have hzeros : (List.replicate 24 (0 : UInt8)).drop (parts.getD i []).length =
      0 :: List.replicate (23 - (parts.getD i []).length) 0 := by
    have hlength := hshort _ hmem
    rw [List.drop_replicate, ← List.replicate_succ]
    congr 1
    omega
  have hstored := storeAll_stored (show emptyFields.length = 10 from rfl) hi
    (show 0 + i < 10 by omega)
  rw [Nat.zero_add] at hstored hbuffer
  rw [fieldAt, hstored, hbuffer, memcpy, hzeros, cString_append_zero (hnul _ hmem)]

/-- The ten strings that the fields hold. -/
def fieldStrings (fields : Fields) : List Bytes := fields.map cString

theorem fieldStrings_storeAll {parts : List Bytes} (hnul : ∀ segment ∈ parts, 0 ∉ segment)
    (hshort : ∀ segment ∈ parts, segment.length < 24) (hten : 10 ≤ parts.length) :
    fieldStrings (storeAll parts 0 emptyFields) = parts.take 10 := by
  have hlength : (storeAll parts 0 emptyFields).length = 10 := length_storeAll parts 0 emptyFields
  apply List.ext_getElem
  · rw [fieldStrings, List.length_map, hlength, List.length_take_of_le hten]
  · intro i hi hi'
    rw [fieldStrings, List.length_map, hlength] at hi
    have hfield := fieldAt_storeAll hnul hshort (i := i) (by omega) hi
    rw [fieldAt, List.getD_eq_getElem _ _ (by omega), List.getD_eq_getElem _ _ (by omega)] at hfield
    rw [List.getElem_take, ← hfield]
    exact List.getElem_map cString

/-- No byte of a segment is outside the body. -/
theorem mem_of_mem_segments {body segment : Bytes} {byte : UInt8} (h : segment ∈ segments body)
    (hbyte : byte ∈ segment) : byte ∈ body := by
  induction body generalizing segment with
  | nil =>
    rw [segments_nil, List.mem_singleton] at h
    rwa [h] at hbyte
  | cons p body ih =>
    by_cases hcomma : p = ','.toUInt8
    · subst hcomma
      rw [segments_comma] at h
      rcases List.mem_cons.mp h with rfl | h
      · exact absurd hbyte List.not_mem_nil
      · exact List.mem_cons_of_mem _ (ih h hbyte)
    · rw [segments_cons hcomma] at h
      cases hsegments : segments body with
      | nil => exact absurd hsegments (List.splitOn_ne_nil _ body)
      | cons first rest =>
        rw [hsegments] at h ih
        rcases List.mem_cons.mp h with rfl | h
        · rcases List.mem_cons.mp hbyte with rfl | hbyte
          · exact List.mem_cons_self
          · exact List.mem_cons_of_mem _ (ih List.mem_cons_self hbyte)
        · exact List.mem_cons_of_mem _ (ih (List.mem_cons_of_mem _ h) hbyte)

theorem frame_iff {line : Bytes} {star : ℕ} :
    byteAt line 0 = '$'.toUInt8 ∧ strchr line '*'.toUInt8 = some star ∧
        (line.drop star).length = 3 ↔
      ∃ body high low, line = '$'.toUInt8 :: (body ++ ['*'.toUInt8, high, low]) ∧
        '*'.toUInt8 ∉ body ∧ star = body.length + 1 := by
  constructor
  · rintro ⟨hdollar, hstar, htail⟩
    obtain ⟨before, after, rfl, hbefore, rfl⟩ := strchr_eq_some_iff.mp hstar
    rw [List.drop_left, List.length_cons] at htail
    obtain ⟨high, low, rfl⟩ := List.length_eq_two.mp (Nat.succ.inj htail)
    cases before with
    | nil => exact absurd (show '*'.toUInt8 = '$'.toUInt8 from hdollar) (by decide)
    | cons first body =>
      have hfirst : first = '$'.toUInt8 := hdollar
      subst hfirst
      exact ⟨body, high, low, rfl, fun h => hbefore (List.mem_cons_of_mem _ h), rfl⟩
  · rintro ⟨body, high, low, rfl, hbody, rfl⟩
    refine ⟨rfl, strchr_eq_some_iff.mpr
      ⟨'$'.toUInt8 :: body, [high, low], rfl, ?_, rfl⟩, by simp⟩
    intro h
    rcases List.mem_cons.mp h with h | h
    · exact absurd h (by decide)
    · exact hbody h

/-- The code's result for a line with a `$`, a star and two bytes behind it. -/
theorem fieldsFromRmc_framed {line : CString} {body : Bytes} {high low : UInt8}
    (hline : line.bytes = '$'.toUInt8 :: (body ++ ['*'.toUInt8, high, low]))
    (hbody : '*'.toUInt8 ∉ body) (fields : Fields) :
    fieldsFromRmc (some line) emptyFields = some fields ↔
      isXdigit high = true ∧ isXdigit low = true ∧
      (xorOf body).toNat = 16 * hexValue high + hexValue low ∧
      ∃ count, splitLoop body [] 0 emptyFields = some (count, fields) ∧ count ≥ 10 ∧
        (fieldAt fields 0).length = 5 ∧ isUpper (byteAt (fieldAt fields 0) 0) = true ∧
        isUpper (byteAt (fieldAt fields 0) 1) = true ∧
        (fieldAt fields 0).drop 2 = ['R'.toUInt8, 'M'.toUInt8, 'C'.toUInt8] ∧
        fieldAt fields 2 = ['A'.toUInt8] := by
  obtain ⟨bytes, hnul⟩ := line
  dsimp only at hline
  subst hline
  obtain ⟨hdollar, hstar, -⟩ := frame_iff.mpr ⟨body, high, low, rfl, hbody, rfl⟩
  have htail : ('$'.toUInt8 :: (body ++ ['*'.toUInt8, high, low])).drop (body.length + 1) =
      ['*'.toUInt8, high, low] := by simp
  have hhead : (('$'.toUInt8 :: (body ++ ['*'.toUInt8, high, low])).take (body.length + 1)).drop 1 =
      body := by simp
  have hnumber : hexNumber [high, low] = 16 * hexValue high + hexValue low := by
    simp [hexNumber]
  rw [fieldsFromRmc, if_neg (not_not_intro hdollar), hstar]
  simp only [htail, hhead, checksum_eq, List.drop_succ_cons, List.drop_zero, hnumber]
  have hdigits : (['*'.toUInt8, high, low].length ≠ 3 ∨
      (!isXdigit (byteAt ['*'.toUInt8, high, low] 1)) = true ∨
      (!isXdigit (byteAt ['*'.toUInt8, high, low] 2)) = true) ↔
        ¬ (isXdigit high = true ∧ isXdigit low = true) := by
    change _ ∨ (!isXdigit high) = true ∨ (!isXdigit low) = true ↔ _
    cases isXdigit high <;> cases isXdigit low <;> simp
  rw [Option.ite_none_left_eq_some, Option.ite_none_left_eq_some, hdigits, not_not, not_not,
    and_assoc]
  refine and_congr_right fun _ => and_congr_right fun _ => and_congr_right fun _ => ?_
  rw [Option.bind_eq_some_iff, Prod.exists]
  refine exists_congr fun count => ?_
  constructor
  · rintro ⟨fields', hloop, hresult⟩
    obtain ⟨hchecks, hfields⟩ := Option.ite_none_right_eq_some.mp hresult
    cases hfields
    exact ⟨hloop, hchecks⟩
  · rintro ⟨hloop, hchecks⟩
    exact ⟨fields, hloop, if_pos hchecks⟩

/-- The type of the sentence as the code checks it. -/
theorem kind_iff {segment : Bytes} :
    segment.length = 5 ∧ isUpper (byteAt segment 0) = true ∧ isUpper (byteAt segment 1) = true ∧
        segment.drop 2 = ['R'.toUInt8, 'M'.toUInt8, 'C'.toUInt8] ↔
      ∃ a b, isUpper a = true ∧ isUpper b = true ∧
        segment = [a, b, 'R'.toUInt8, 'M'.toUInt8, 'C'.toUInt8] := by
  constructor
  · rintro ⟨hlength, ha, hb, hrmc⟩
    match segment, hlength with
    | a :: b :: rest, _ =>
      have hrest : rest = ['R'.toUInt8, 'M'.toUInt8, 'C'.toUInt8] := hrmc
      exact ⟨a, b, ha, hb, by rw [hrest]⟩
  · rintro ⟨a, b, ha, hb, rfl⟩
    exact ⟨rfl, ha, hb, rfl⟩

theorem getElem?_eq_some_getD {parts : List Bytes} {i : ℕ} (hi : i < parts.length)
    {part : Bytes} : parts[i]? = some part ↔ parts.getD i [] = part := by
  rw [List.getElem?_eq_getElem hi, Option.some_inj, List.getD_eq_getElem _ _ hi]

theorem framed_of_fieldsFromRmc {line : CString} {fields result : Fields}
    (h : fieldsFromRmc (some line) fields = some result) :
    ∃ body high low, line.bytes = '$'.toUInt8 :: (body ++ ['*'.toUInt8, high, low]) ∧
      '*'.toUInt8 ∉ body := by
  rw [fieldsFromRmc] at h
  obtain ⟨hdollar, h⟩ := Option.ite_none_left_eq_some.mp h
  cases hstar : strchr line.bytes '*'.toUInt8 with
  | none =>
    rw [hstar] at h
    cases h
  | some star =>
    rw [hstar] at h
    obtain ⟨htail, -⟩ := Option.ite_none_left_eq_some.mp h
    obtain ⟨body, high, low, hline, hbody, -⟩ :=
      frame_iff.mp ⟨not_not.mp hdollar, hstar, not_not.mp (not_or.mp htail).1⟩
    exact ⟨body, high, low, hline, hbody⟩

theorem zero_notMem_segment {body segment : Bytes} (h : ∀ p ∈ body, 32 ≤ p ∧ p ≤ 126)
    (hsegment : segment ∈ segments body) : 0 ∉ segment :=
  fun hzero => absurd (h 0 (mem_of_mem_segments hsegment hzero)).1 (by decide)

/-- The checks on the fields are those on the segments. -/
theorem fieldsFromRmc_eq_some_iff {line : CString} {fields : Fields} :
    fieldsFromRmc (some line) emptyFields = some fields ↔
      ∃ body, RmcSentence line.bytes body ∧ fields = storeAll (segments body) 0 emptyFields := by
  have hid : ∀ body, (segments body).modifyHead ([] ++ ·) = segments body := by
    intro body
    cases segments body <;> rfl
  have hfield : ∀ {body : Bytes}, (∀ p ∈ body, 32 ≤ p ∧ p ≤ 126) →
      (∀ segment ∈ segments body, segment.length < 24) → 10 ≤ (segments body).length → ∀ i, i < 10 →
      fieldAt (storeAll (segments body) 0 emptyFields) i = (segments body).getD i [] := by
    intro body hprintable hshort hten i hi
    exact fieldAt_storeAll (fun _ => zero_notMem_segment hprintable) hshort (by omega) hi
  constructor
  · intro h
    obtain ⟨body, high, low, hline, hbody⟩ := framed_of_fieldsFromRmc h
    obtain ⟨hhigh, hlow, hsum, count, hloop, hten, hlength, ha, hb, hrmc, hactive⟩ :=
      (fieldsFromRmc_framed hline hbody fields).mp h
    rw [splitLoop_eq_some_iff, hid, Nat.zero_add] at hloop
    obtain ⟨hprintable, hshort, hresult⟩ := hloop
    obtain ⟨rfl, rfl⟩ := Prod.mk.inj hresult
    rw [hfield hprintable hshort hten 0 (by omega)] at hlength ha hb hrmc
    rw [hfield hprintable hshort hten 2 (by omega)] at hactive
    obtain ⟨a, b, ha, hb, hkind⟩ := kind_iff.mp ⟨hlength, ha, hb, hrmc⟩
    exact ⟨body, ⟨hbody, ⟨high, low, hline, hhigh, hlow, hsum.symm⟩, hprintable, hten, hshort,
      ⟨a, b, ha, hb, (getElem?_eq_some_getD (by omega)).mpr hkind⟩,
      (getElem?_eq_some_getD (by omega)).mpr hactive⟩, rfl⟩
  · rintro ⟨body, hsentence, rfl⟩
    obtain ⟨high, low, hline, hhigh, hlow, hsum⟩ := hsentence.framed
    obtain ⟨a, b, ha, hb, hkind⟩ := hsentence.kind
    have hten := hsentence.enough
    have hfield' := hfield hsentence.printable hsentence.short hten
    rw [getElem?_eq_some_getD (by omega)] at hkind
    have hactive := (getElem?_eq_some_getD (by omega)).mp hsentence.active
    obtain ⟨hlength, ha, hb, hrmc⟩ := kind_iff.mpr ⟨a, b, ha, hb, hkind⟩
    rw [fieldsFromRmc_framed hline hsentence.starless]
    refine ⟨hhigh, hlow, hsum.symm, (segments body).length, ?_, hten, ?_⟩
    · rw [splitLoop_eq_some_iff, hid, Nat.zero_add]
      exact ⟨hsentence.printable, hsentence.short, rfl⟩
    · rw [hfield' 0 (by omega), hfield' 2 (by omega)]
      exact ⟨hlength, ha, hb, hrmc, hactive⟩

theorem fieldsFromRmc_eq_none {line : CString} (h : ¬ ∃ body, RmcSentence line.bytes body) :
    fieldsFromRmc (some line) emptyFields = none := by
  rw [Option.eq_none_iff_forall_ne_some]
  intro fields hfields
  obtain ⟨body, hsentence, -⟩ := fieldsFromRmc_eq_some_iff.mp hfields
  exact h ⟨body, hsentence⟩

/-- The parser sees of the line only its fields, and of the old fix nothing. -/
theorem gpsRmcParse_congr {D : Type} [Doubles D] {line line' : Option CString}
    (h : fieldsFromRmc line emptyFields = fieldsFromRmc line' emptyFields) (fix fix' : GpsRmcFix) :
    gpsRmcParse D line (some fix) = gpsRmcParse D line' (some fix') := by
  rw [gpsRmcParse, gpsRmcParse, h]

theorem gpsRmcParse_of_none {D : Type} [Doubles D] {line : Option CString}
    (h : fieldsFromRmc line emptyFields = none) (fix : GpsRmcFix) :
    gpsRmcParse D line (some fix) = (false, some clearedFix) :=
  gpsRmcParse_congr (h.trans (show _ = fieldsFromRmc none emptyFields from rfl)) fix fix

/-- The framing of a sentence accepts exactly the grammar and returns the first ten segments; any
other line is refused with a cleared fix. -/
theorem fieldsFromRmc_grammar (D : Type) [Doubles D] (line : CString) :
    (∀ strings, (fieldsFromRmc (some line) emptyFields).map fieldStrings = some strings ↔
      ∃ body, RmcSentence line.bytes body ∧ strings = (segments body).take 10) ∧
    ((¬ ∃ body, RmcSentence line.bytes body) → fieldsFromRmc (some line) emptyFields = none ∧
      ∀ fix, gpsRmcParse D (some line) (some fix) = (false, some clearedFix)) := by
  constructor
  · intro strings
    rw [Option.map_eq_some_iff]
    constructor
    · rintro ⟨fields, hfields, rfl⟩
      obtain ⟨body, hsentence, rfl⟩ := fieldsFromRmc_eq_some_iff.mp hfields
      exact ⟨body, hsentence, fieldStrings_storeAll
        (fun _ => zero_notMem_segment hsentence.printable) hsentence.short hsentence.enough⟩
    · rintro ⟨body, hsentence, rfl⟩
      exact ⟨_, fieldsFromRmc_eq_some_iff.mpr ⟨body, hsentence, rfl⟩, fieldStrings_storeAll
        (fun _ => zero_notMem_segment hsentence.printable) hsentence.short hsentence.enough⟩
  · intro h
    exact ⟨fieldsFromRmc_eq_none h, gpsRmcParse_of_none (fieldsFromRmc_eq_none h)⟩

end BajaDaq.RmcGrammar

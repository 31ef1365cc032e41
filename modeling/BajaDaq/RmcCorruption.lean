import BajaDaq.RmcGrammar

/-!
# Corrupted RMC sentences

A truncated, extended or altered sentence is refused. The one alteration that is not seen is that of
the case of a checksum letter.
-/

namespace BajaDaq.RmcCorruption
open CStrings RmcParser RmcGrammar

/-- The string in the buffer of the line after one byte of it is overwritten. -/
def replaceByte (line : CString) (i : ℕ) (byte : UInt8) : CString :=
  CString.ofBuffer (line.bytes.set i byte)

/-- The replaced byte is a digit of the checksum, and the new one differs at most in its case. -/
def CaseChange (line : CString) (i : ℕ) (byte : UInt8) : Prop :=
  line.bytes.length - 2 ≤ i ∧ toLower byte = toLower (byteAt line.bytes i)

def Rejected (D : Type) [Doubles D] (line : CString) : Prop :=
  ∀ fix, gpsRmcParse D (some line) (some fix) = (false, some clearedFix)

variable {D : Type} [Doubles D]

theorem rejected_of_not_sentence {line : CString} (h : ¬ ∃ body, RmcSentence line.bytes body) :
    Rejected D line :=
  gpsRmcParse_of_none (fieldsFromRmc_eq_none h)

theorem sentence_of_accepted {line : CString} {fix : GpsRmcFix} {result : Option GpsRmcFix}
    (h : gpsRmcParse D (some line) (some fix) = (true, result)) :
    ∃ body, RmcSentence line.bytes body := by
  by_contra hnot
  rw [rejected_of_not_sentence hnot fix] at h
  cases h

theorem star_notMem_digits {high low : UInt8} (hhigh : isXdigit high = true)
    (hlow : isXdigit low = true) : '*'.toUInt8 ∉ [high, low] := by
  intro h
  rcases List.mem_pair.mp h with h | h
  · rw [← h] at hhigh
    exact absurd hhigh (by decide)
  · rw [← h] at hlow
    exact absurd hlow (by decide)

/-- No sentence is a proper prefix of another one: the star tells the length. -/
theorem sentence_unique {a b x y : Bytes} (ha : RmcSentence a x) (hb : RmcSentence b y)
    (h : a <+: b) : a = b := by
  obtain ⟨high, low, rfl, -⟩ := ha.framed
  obtain ⟨high', low', rfl, hhigh, hlow, -⟩ := hb.framed
  obtain ⟨rest, hrest⟩ := h
  rw [List.cons_append, List.cons.injEq, List.append_assoc, List.cons_append] at hrest
  obtain ⟨rfl, -, htail⟩ :=
    (List.append_cons_inj_of_notMem hb.starless (star_notMem_digits hhigh hlow)).mp hrest.2.symm
  cases htail
  rfl

theorem isXdigit_congr {a b : UInt8} (h : toLower a = toLower b) : isXdigit a = isXdigit b := by
  rw [← UInt8.toNat_inj, toNat_toLower, toNat_toLower] at h
  rw [Bool.eq_iff_iff, isXdigit_iff, isXdigit_iff]
  grind

theorem toLower_of_hexValue {a b c d : UInt8} (ha : isXdigit a = true) (hb : isXdigit b = true)
    (h : 16 * hexValue a + hexValue c = 16 * hexValue b + hexValue d) (hc : isXdigit c = true)
    (hd : isXdigit d = true) : toLower a = toLower b ∧ toLower c = toLower d := by
  have hlow := hexValue_lt hc
  have hlow' := hexValue_lt hd
  exact ⟨(hexValue_eq_iff ha hb).mp (by omega), (hexValue_eq_iff hc hd).mp (by omega)⟩

theorem length_sentence (body : Bytes) (high low : UInt8) :
    ('$'.toUInt8 :: (body ++ ['*'.toUInt8, high, low])).length = body.length + 4 := by
  rw [List.length_cons, List.length_append]
  rfl

/-- The star and the digits behind the body. -/
theorem byteAt_sentence (body : Bytes) (high low : UInt8) (j : ℕ) :
    byteAt ('$'.toUInt8 :: (body ++ ['*'.toUInt8, high, low])) (body.length + j + 1) =
      byteAt ['*'.toUInt8, high, low] j := by
  change (body ++ ['*'.toUInt8, high, low]).getD (body.length + j) 0 = _
  rw [List.getD_append_right _ _ _ _ (Nat.le_add_right _ _), Nat.add_sub_cancel_left, byteAt]

/-- An altered line that is still a sentence has the case of a checksum digit changed. -/
theorem caseChange_of_sentence {line : CString} {body body' : Bytes} {i : ℕ} {byte : UInt8}
    (h : RmcSentence line.bytes body) (hi : i < line.bytes.length)
    (hne : byte ≠ byteAt line.bytes i) (h' : RmcSentence (line.bytes.set i byte) body') :
    CaseChange line i byte := by
  obtain ⟨high, low, hline, hhigh, hlow, hsum⟩ := h.framed
  obtain ⟨high', low', hline', hhigh', hlow', hsum'⟩ := h'.framed
  have hlength : body'.length = body.length := by
    have hsame := congrArg List.length hline'
    rw [List.length_set, hline, length_sentence, length_sentence] at hsame
    omega
  rw [hline] at hi hne hline'
  cases i with
  | zero => exact absurd (List.cons.inj hline').1 hne
  | succ k =>
    have htail : (body ++ ['*'.toUInt8, high, low]).set k byte =
      body' ++ ['*'.toUInt8, high', low'] := (List.cons.inj hline').2
    by_cases hk : k < body.length
    · -- A byte of the body: its exclusive or changes and the checksum does not.
      rw [List.set_append_left _ _ hk] at htail
      obtain ⟨hbody, hdigits⟩ := List.append_inj htail (by rw [List.length_set, hlength])
      cases hdigits
      have hxor : xorOf (body.set k byte) = xorOf body := by
        rw [hbody, ← UInt8.toNat_inj, ← hsum, ← hsum']
      have hsame : byteAt ('$'.toUInt8 :: (body ++ ['*'.toUInt8, high, low])) (k + 1) =
          byteAt body k := List.getD_append _ _ _ _ hk
      exact absurd ((byte_of_xorOf_set hk hxor).trans hsame.symm) hne
    · obtain ⟨j, rfl⟩ := Nat.exists_eq_add_of_le (Nat.le_of_not_lt hk)
      have hold := byteAt_sentence body high low j
      rw [List.set_append_right _ _ (Nat.le_add_right _ _), Nat.add_sub_cancel_left] at htail
      obtain ⟨rfl, hdigits⟩ := List.append_inj htail hlength.symm
      rw [CaseChange, hline, hold]
      rw [hold] at hne
      rw [length_sentence] at hi
      have hj : j < 3 := by omega
      have hsame : 16 * hexValue high' + hexValue low' = 16 * hexValue high + hexValue low :=
        hsum'.trans hsum.symm
      have hcase := toLower_of_hexValue hhigh' hhigh hsame hlow' hlow
      rw [length_sentence]
      match j, hj with
      | 0, _ =>
        cases hdigits
        exact absurd rfl hne
      | 1, _ =>
        cases hdigits
        exact ⟨by omega, hcase.1⟩
      | 2, _ =>
        cases hdigits
        exact ⟨by omega, hcase.2⟩

/-- The sentence with the case of a checksum digit changed is a sentence with the same body. -/
theorem sentence_of_caseChange {line : CString} {body : Bytes} {i : ℕ} {byte : UInt8}
    (h : RmcSentence line.bytes body) (hi : i < line.bytes.length)
    (hcase : CaseChange line i byte) :
    RmcSentence (line.bytes.set i byte) body := by
  obtain ⟨high, low, hline, hhigh, hlow, hsum⟩ := h.framed
  obtain ⟨hplace, hlower⟩ := hcase
  rw [hline] at hi hplace hlower ⊢
  rw [length_sentence] at hi hplace
  obtain ⟨j, rfl⟩ := Nat.exists_eq_add_of_le (show body.length + 2 ≤ i by omega)
  have hj : j < 2 := by omega
  have hset : ('$'.toUInt8 :: (body ++ ['*'.toUInt8, high, low])).set (body.length + 2 + j) byte =
      '$'.toUInt8 :: (body ++ '*'.toUInt8 :: [high, low].set j byte) := by
    rw [show body.length + 2 + j = body.length + (j + 1) + 1 by omega, List.set_cons_succ,
      List.set_append_right _ _ (Nat.le_add_right _ _), Nat.add_sub_cancel_left, List.set_cons_succ]
  have hold : byteAt ('$'.toUInt8 :: (body ++ ['*'.toUInt8, high, low])) (body.length + 2 + j) =
      byteAt [high, low] j := by
    rw [show body.length + 2 + j = body.length + (j + 1) + 1 by omega, byteAt_sentence]
    rfl
  rw [hold] at hlower
  rw [hset]
  match j, hj with
  | 0, _ =>
    have hbyte : isXdigit byte = true := (isXdigit_congr hlower).trans hhigh
    refine { h with framed := ⟨byte, low, rfl, hbyte, hlow, ?_⟩ }
    rw [(hexValue_eq_iff hbyte hhigh).mpr hlower, hsum]
  | 1, _ =>
    have hbyte : isXdigit byte = true := (isXdigit_congr hlower).trans hlow
    refine { h with framed := ⟨high, byte, rfl, hhigh, hbyte, ?_⟩ }
    rw [(hexValue_eq_iff hbyte hlow).mpr hlower, hsum]

theorem replaceByte_zero (line : CString) {i : ℕ} (hi : i < line.bytes.length) :
    (replaceByte line i 0).bytes = line.bytes.take i := by
  change cString (line.bytes.set i 0) = line.bytes.take i
  rw [List.set_eq_take_append_cons_drop, if_pos hi]
  exact cString_append_zero (fun h => line.nulFree (List.mem_of_mem_take h)) _

theorem replaceByte_of_ne_zero (line : CString) (i : ℕ) {byte : UInt8} (hbyte : byte ≠ 0) :
    (replaceByte line i byte).bytes = line.bytes.set i byte := by
  refine cString_of_notMem fun h => ?_
  rcases List.mem_or_eq_of_mem_set h with h | h
  · exact line.nulFree h
  · exact hbyte h.symm

theorem zero_notMem_sentence {a x : Bytes} (h : RmcSentence a x) : 0 ∉ a := by
  obtain ⟨high, low, rfl, hhigh, hlow, -⟩ := h.framed
  have hne : ∀ {byte : UInt8}, isXdigit byte = true → 0 ≠ byte := by
    rintro byte hbyte rfl
    exact absurd hbyte (by decide)
  intro hzero
  rcases List.mem_cons.mp hzero with hzero | hzero
  · exact absurd hzero (by decide)
  · rcases List.mem_append.mp hzero with hzero | hzero
    · exact absurd (h.printable 0 hzero).1 (by decide)
    · rcases List.mem_cons.mp hzero with hzero | hzero
      · exact absurd hzero (by decide)
      · rcases List.mem_pair.mp hzero with hzero | hzero
        · exact hne hhigh hzero
        · exact hne hlow hzero

theorem rejected_of_cut {line other : CString} {body : Bytes} (h : RmcSentence line.bytes body)
    (hcut : other.bytes <+: line.bytes ∨ line.bytes <+: other.bytes)
    (hne : other.bytes ≠ line.bytes) : Rejected D other := by
  refine rejected_of_not_sentence ?_
  rintro ⟨body', h'⟩
  rcases hcut with hcut | hcut
  · exact hne (sentence_unique h' h hcut)
  · exact hne (sentence_unique h h' hcut).symm

theorem rejected_of_replaceByte {line : CString} {body : Bytes} {i : ℕ} {byte : UInt8}
    (h : RmcSentence line.bytes body) (hi : i < line.bytes.length)
    (hne : byte ≠ byteAt line.bytes i) (hcase : ¬ CaseChange line i byte) :
    Rejected D (replaceByte line i byte) := by
  by_cases hzero : byte = 0
  · subst hzero
    have hcut := replaceByte_zero line hi
    refine rejected_of_cut h (.inl ?_) ?_
    · rw [hcut]
      exact List.take_prefix i line.bytes
    · intro hsame
      have hlength := congrArg List.length (hcut.symm.trans hsame)
      rw [List.length_take] at hlength
      omega
  · refine rejected_of_not_sentence ?_
    rintro ⟨body', h'⟩
    rw [replaceByte_of_ne_zero line i hzero] at h'
    exact hcase (caseChange_of_sentence h hi hne h')

theorem fieldsFromRmc_of_caseChange {line : CString} {body : Bytes} {i : ℕ} {byte : UInt8}
    (h : RmcSentence line.bytes body) (hi : i < line.bytes.length)
    (hcase : CaseChange line i byte) :
    fieldsFromRmc (some (replaceByte line i byte)) emptyFields =
      fieldsFromRmc (some line) emptyFields := by
  have h' := sentence_of_caseChange h hi hcase
  have hzero : byte ≠ 0 := by
    rintro rfl
    exact zero_notMem_sentence h' (List.mem_set hi 0)
  rw [fieldsFromRmc_eq_some_iff.mpr ⟨body, h, rfl⟩]
  refine fieldsFromRmc_eq_some_iff.mpr ⟨body, ?_, rfl⟩
  rwa [replaceByte_of_ne_zero line i hzero]

/-- Of an accepted line, every proper prefix, every proper extension and every replacement of one
byte is rejected, and the change of the case of a checksum digit gives the same result. -/
theorem corrupted_rejected {line : CString} {before fix : GpsRmcFix}
    (h : gpsRmcParse D (some line) (some before) = (true, some fix)) :
    (∀ cut : CString, cut.bytes <+: line.bytes → cut.bytes ≠ line.bytes → Rejected D cut) ∧
    (∀ extended : CString, line.bytes <+: extended.bytes → extended.bytes ≠ line.bytes →
      Rejected D extended) ∧
    ∀ i byte, i < line.bytes.length → byte ≠ byteAt line.bytes i →
      (CaseChange line i byte → ∀ before,
        gpsRmcParse D (some (replaceByte line i byte)) (some before) = (true, some fix)) ∧
      (¬ CaseChange line i byte → Rejected D (replaceByte line i byte)) := by
  obtain ⟨body, hsentence⟩ := sentence_of_accepted h
  refine ⟨fun cut hcut hne => rejected_of_cut hsentence (.inl hcut) hne,
    fun extended hextended hne => rejected_of_cut hsentence (.inr hextended) hne, ?_⟩
  intro i byte hi hne
  refine ⟨?_, rejected_of_replaceByte hsentence hi hne⟩
  intro hcase before'
  rw [← h]
  exact gpsRmcParse_congr (fieldsFromRmc_of_caseChange hsentence hi hcase) before' before

/-- 18:42:03 on 10 September 2026 and 1.5 knots, without a position. -/
def speedSentence : CString where
  bytes := ['$', 'G', 'P', 'R', 'M', 'C', ',', '1', '8', '4', '2', '0', '3', ',', 'A', ',', ',',
    ',', ',', ',', '1', '.', '5', ',', ',', '1', '0', '0', '9', '2', '6', '*', '0',
    'C'].map Char.toUInt8
  nulFree := by decide

theorem speedSentence_corrupted :
    (∀ cut : CString, cut.bytes <+: speedSentence.bytes → cut.bytes ≠ speedSentence.bytes →
      Rejected ℚ cut) ∧
    Rejected ℚ (replaceByte speedSentence 22 '2'.toUInt8) ∧
    gpsRmcParse ℚ (some (replaceByte speedSentence 33 'c'.toUInt8)) (some clearedFix) =
      (true, some ⟨1789065723000, 0, 0, 278, false, true, true⟩) := by
  have haccepted : gpsRmcParse ℚ (some speedSentence) (some clearedFix) =
      (true, some ⟨1789065723000, 0, 0, 278, false, true, true⟩) := by decide +kernel
  obtain ⟨hcut, -, hreplaced⟩ := corrupted_rejected haccepted
  refine ⟨hcut, (hreplaced 22 _ (by decide) (by decide)).2 ?_,
    (hreplaced 33 _ (by decide) (by decide)).1 ⟨by decide, by decide⟩ clearedFix⟩
  rintro ⟨hplace, -⟩
  exact absurd hplace (by decide)

end BajaDaq.RmcCorruption

import BajaDaq.CivilDates
import BajaDaq.CompletedLogs
import BajaDaq.NodeRegistry
import BajaDaq.PairedExport
import Mathlib.Order.Interval.Finset.Nat

/-!
# Automatic names

`choose_default_log_path`: the wait for UTC and the search for a name under which neither a
recording nor a companion exists. The counters of the search wrap at 2 ^ 32.
-/

namespace BajaDaq.DefaultNames
open DecimalText CivilDates Directories SessionFiles ActiveProtection CompletedLogs

def defaultNameGpsWaitMs : ℕ := 3000
def logPrefix : Text := "log_".toList

/-- The loop that waits for UTC on what the clock and then the tick count show in its passes;
`none` if it goes on after these. -/
def awaitUtc (waitTicks started : UInt32) : List (Int64 × UInt32) → Option Int64
  | [] => none
  | (utcMs, now) :: later =>
    if utcMs > 0 then some utcMs
    else if now - started ≥ waitTicks then some utcMs
    else awaitUtc waitTicks started later

/-- `log_%Y-%m-%d_%H-%M-%S`. -/
def timestampFormat : List Conversion :=
  logPrefix.map .char ++ [.year, .char '-', .month, .char '-', .day, .char '_', .hour,
    .char '-', .minute, .char '-', .second]

/-- The timestamp; `none` where the numbering scheme is used. -/
def timestampOf (utcMs : ℤ) : Option Text :=
  if utcMs > 0 then (gmtimeR (utcMs / 1000).toNat).bind (strftime 32 timestampFormat) else none

def stampedPath (timestamp : Text) (suffix : UInt32) : Text :=
  if suffix = 0 then sdRoot ++ timestamp ++ binSuffix
  else sdRoot ++ timestamp ++ '_' :: paddedText 2 suffix.toNat ++ binSuffix

def numberedPath (index : UInt32) : Text :=
  sdRoot ++ logPrefix ++ paddedText 4 index.toNat ++ binSuffix

variable {κ β : Type*} (resolve : Text → κ) (d : Directory κ β)

/-- Either search loop from the counter on, in at most `fuel` passes. -/
def searchPath (format : UInt32 → Text) : ℕ → UInt32 → Option Text
  | 0, _ => none
  | fuel + 1, counter =>
    let path := (snprintf logPathLength (format counter)).1
    let sidecar := utcPathOf path
    if (stat resolve d path).isNone && (stat resolve d sidecar).isNone then some path
    else searchPath format fuel (counter + 1)

/-- The path for the UTC that the wait has left. -/
def searchDefaultPath (fuel : ℕ) (utcMs : ℤ) : Option Text :=
  match timestampOf utcMs with
  | some timestamp => searchPath resolve d (stampedPath timestamp) fuel 0
  | none => searchPath resolve d numberedPath fuel 1

def chooseDefaultLogPath (rate : NodeRegistry.TickRate) (fuel : ℕ) (started : UInt32)
    (readings : List (Int64 × UInt32)) : Option Text :=
  (awaitUtc (UInt32.ofNat (rate.ticksOf defaultNameGpsWaitMs)) started readings).bind
    fun utcMs => searchDefaultPath resolve d fuel utcMs.toInt

/-- A date and a time of day in a name. -/
def stampText (date : CivilDate) (hour minute second : ℕ) : Text :=
  unsignedText date.year ++ '-' :: paddedText 2 date.month ++ '-' :: paddedText 2 date.day ++
    '_' :: paddedText 2 hour ++ '-' :: paddedText 2 minute ++ '-' :: paddedText 2 second

def timeText (ms : ℕ) : Text :=
  stampText (civilOfDays (ms / 86400000)) (ms / 3600000 % 24) (ms / 60000 % 60) (ms / 1000 % 60)

/-- The `k`-th tail: nothing, `_01`, `_02` and so on behind a time, and the numbers from 1 on, with
0 behind the last one, where there is no time. -/
def tailText (timed : Bool) (k : ℕ) : Text :=
  if timed then if k = 0 then [] else '_' :: paddedText 2 k
  else paddedText 4 ((k + 1) % 2 ^ 32)

/-- The `k`-th name at a UTC in milliseconds. -/
def documentedName (utcMs : ℤ) (k : ℕ) : Text :=
  logPrefix ++ (if utcMs > 0 then timeText utcMs.toNat else []) ++
    tailText (decide (utcMs > 0)) k ++ binSuffix

/-- Neither the recording nor its companion exists. -/
def IsFree (name : Text) : Prop :=
  stat resolve d (pathOf name) = none ∧ stat resolve d (utcPathOf (pathOf name)) = none

/-- Paths of recordings and companions that differ in more than the case of letters denote
different entries. -/
def DistinguishesNames (resolve : Text → κ) : Prop :=
  ∀ a b, dataLoggerValidFilename a = true → dataLoggerValidFilename b = true →
    (resolve (pathOf a) = resolve (pathOf b) → caseFold a = caseFold b) ∧
    (resolve (utcPathOf (pathOf a)) = resolve (utcPathOf (pathOf b)) → caseFold a = caseFold b) ∧
    resolve (pathOf a) ≠ resolve (utcPathOf (pathOf b))

/-- A character that `data_logger_valid_filename` accepts before the suffix. -/
def IsNameChar (c : Char) : Prop := (c.isAlphanum || c == '_' || c == '-') = true

instance : DecidablePred IsNameChar := fun _ => inferInstanceAs (Decidable (_ = true))

theorem isNameChar_of_isDigit {c : Char} (h : c.isDigit = true) : IsNameChar c := by
  simp [IsNameChar, Char.isAlphanum, h]

theorem isNameChar_paddedText (w n : ℕ) : ∀ c ∈ paddedText w n, IsNameChar c :=
  fun _ h => isNameChar_of_isDigit (isDigit_of_mem_paddedText h)

theorem isNameChar_stampText (date : CivilDate) (hour minute second : ℕ) :
    ∀ c ∈ stampText date hour minute second, IsNameChar c := by
  have hhyphen : IsNameChar '-' := by decide
  have hunderscore : IsNameChar '_' := by decide
  have hyear : ∀ c ∈ unsignedText date.year, IsNameChar c :=
    fun _ h => isNameChar_of_isDigit (Nat.isDigit_of_mem_toDigits (by decide) (by decide) h)
  simp only [stampText, List.forall_mem_append, List.forall_mem_cons]
  exact ⟨⟨⟨⟨⟨hyear, hhyphen, isNameChar_paddedText _ _⟩, hhyphen, isNameChar_paddedText _ _⟩,
    hunderscore, isNameChar_paddedText _ _⟩, hhyphen, isNameChar_paddedText _ _⟩,
    hhyphen, isNameChar_paddedText _ _⟩

theorem isNameChar_tailText (timed : Bool) (k : ℕ) : ∀ c ∈ tailText timed k, IsNameChar c := by
  unfold tailText
  split
  · split
    · exact List.forall_mem_nil _
    · exact List.forall_mem_cons.mpr ⟨by decide, isNameChar_paddedText _ _⟩
  · exact isNameChar_paddedText _ _

theorem length_stampText {date : CivilDate} {hour minute second : ℕ} (hmonth : date.month < 100)
    (hday : date.day < 100) (hhour : hour < 100) (hminute : minute < 100)
    (hsecond : second < 100) :
    (stampText date hour minute second).length = (unsignedText date.year).length + 15 := by
  have htwo : ∀ n, n < 100 → (paddedText 2 n).length = 2 :=
    fun n hn => length_paddedText (by omega) hn
  simp only [stampText, List.length_append, List.length_cons, htwo _ hmonth, htwo _ hday,
    htwo _ hhour, htwo _ hminute, htwo _ hsecond]

theorem length_timeText_le {ms : ℕ} (hyear : (civilOfDays (ms / 86400000)).year < 10000) :
    (timeText ms).length ≤ 19 := by
  have hdigits := (length_unsignedText_le (k := 4) (by omega)).mpr hyear
  have hmonth := (month_civilOfDays (ms / 86400000)).2
  have hday := (day_civilOfDays (ms / 86400000)).2
  rw [timeText, length_stampText (by omega) (by omega) (by omega) (by omega) (by omega)]
  omega

theorem length_tailText_le {k : ℕ} (timed : Bool) (hk : k < 2 ^ 32) :
    (tailText timed k).length ≤ 11 := by
  unfold tailText
  split
  · split
    · exact Nat.zero_le _
    · have hdigits := length_paddedText_le (w := 2) (n := k) (k := 10) (by omega) (by omega)
        (by omega)
      rw [List.length_cons]
      omega
  · have hdigits := length_paddedText_le (w := 4) (n := (k + 1) % 2 ^ 32) (k := 10) (by omega)
      (by omega) (by omega)
    omega

theorem validFilename_stem {stem : Text} (hpos : 0 < stem.length) (hlength : stem.length ≤ 40)
    (hchars : ∀ c ∈ stem, IsNameChar c) : dataLoggerValidFilename (stem ++ binSuffix) = true := by
  have hsuffix : binSuffix.length = 4 := rfl
  have hlast : (stem ++ binSuffix).length - 4 = stem.length := by
    rw [List.length_append, hsuffix]
    omega
  have hbounds : ¬ ((stem ++ binSuffix).length < 5 ∨
      (stem ++ binSuffix).length > dataLoggerFilenameMax ∨
      (stem ++ binSuffix).drop ((stem ++ binSuffix).length - 4) ≠ binSuffix) := by
    rw [hlast, List.drop_left, List.length_append, hsuffix, dataLoggerFilenameMax]
    simp only [ne_eq, not_true_eq_false, or_false]
    omega
  rw [dataLoggerValidFilename, if_neg hbounds, hlast, List.take_left]
  exact List.all_eq_true.mpr hchars

variable {utcMs : ℤ}

theorem validFilename_documentedName {k : ℕ} (hk : k < 2 ^ 32)
    (hyear : utcMs > 0 → (civilOfDays (utcMs.toNat / 86400000)).year < 10000) :
    dataLoggerValidFilename (documentedName utcMs k) = true := by
  have hlog : logPrefix.length = 4 := rfl
  have hletters : logPrefix.all (fun c => c.isAlphanum || c == '_' || c == '-') = true := rfl
  have htail := length_tailText_le (decide (utcMs > 0)) hk
  have htime : (if utcMs > 0 then timeText utcMs.toNat else []).length ≤ 19 := by
    split
    · exact length_timeText_le (hyear ‹_›)
    · exact Nat.zero_le _
  apply validFilename_stem
  · rw [List.length_append, List.length_append, hlog]
    omega
  · rw [List.length_append, List.length_append, hlog]
    omega
  · simp only [List.forall_mem_append]
    refine ⟨⟨List.all_eq_true.mp hletters, ?_⟩, isNameChar_tailText _ _⟩
    split
    · exact isNameChar_stampText _ _ _ _
    · exact List.forall_mem_nil _

theorem toLower_of_isDigit {c : Char} (h : c.isDigit = true) : c.toLower = c := by
  have hupper : ¬ (c.val ≥ 'A'.val ∧ c.val ≤ 'Z'.val) := by
    simp only [Char.isDigit, Bool.and_eq_true, decide_eq_true_eq, UInt32.le_iff_toNat_le,
      ge_iff_le] at h ⊢
    simp at h ⊢
    omega
  exact dif_neg hupper

theorem caseFold_tailText (timed : Bool) (k : ℕ) :
    caseFold (tailText timed k) = tailText timed k := by
  have hpadded : ∀ w n, (paddedText w n).map Char.toLower = paddedText w n := fun w n =>
    (List.map_congr_left fun _ h => toLower_of_isDigit (isDigit_of_mem_paddedText h)).trans
      (List.map_id' _)
  unfold caseFold tailText
  split
  · split
    · rfl
    · rw [List.map_cons, hpadded]
      rfl
  · exact hpadded _ _

theorem tailText_inj {timed : Bool} {i j : ℕ} (hi : i < 2 ^ 32) (hj : j < 2 ^ 32)
    (h : tailText timed i = tailText timed j) : i = j := by
  cases timed with
  | false =>
    have hmod : (i + 1) % 2 ^ 32 = (j + 1) % 2 ^ 32 := paddedText_inj.mp h
    omega
  | true =>
    rw [tailText, tailText, if_pos rfl, if_pos rfl] at h
    split at h
    · split at h
      · omega
      · cases h
    · split at h
      · cases h
      · exact paddedText_inj.mp (List.cons_inj_right _ |>.mp h)

/-- No two of the names agree up to the case of letters. -/
theorem documentedName_inj {i j : ℕ} (hi : i < 2 ^ 32) (hj : j < 2 ^ 32)
    (h : caseFold (documentedName utcMs i) = caseFold (documentedName utcMs j)) : i = j := by
  unfold documentedName at h
  simp only [caseFold_append, List.append_cancel_right_eq, List.append_cancel_left_eq,
    caseFold_tailText] at h
  exact tailText_inj hi hj h

/-- Of the first 2 ^ 32 names one is free if there are fewer entries. -/
theorem exists_first_isFree {resolve : Text → κ} {d : Directory κ β}
    (hnames : DistinguishesNames resolve)
    (hyear : utcMs > 0 → (civilOfDays (utcMs.toNat / 86400000)).year < 10000)
    (hcount : {key | d key ≠ none}.encard < 2 ^ 32) :
    ∃ k < 2 ^ 32, IsFree resolve d (documentedName utcMs k) ∧
      ∀ j < k, ¬ IsFree resolve d (documentedName utcMs j) := by
  have hvalid : ∀ k < 2 ^ 32, dataLoggerValidFilename (documentedName utcMs k) = true :=
    fun k hk => validFilename_documentedName hk hyear
  obtain ⟨k, hk, hfree, hbefore⟩ := @exists_first_free _ _ _ resolve d (2 ^ 32)
    (fun k => [pathOf (documentedName utcMs k), utcPathOf (pathOf (documentedName utcMs k))])
    (by
      intro i hi j hj x hx y hy hkey
      obtain ⟨hlog, hutc, hother⟩ := hnames _ _ (hvalid i hi) (hvalid j hj)
      obtain ⟨-, -, hother'⟩ := hnames _ _ (hvalid j hj) (hvalid i hi)
      rcases List.mem_pair.mp hx with rfl | rfl
      · rcases List.mem_pair.mp hy with rfl | rfl
        · exact documentedName_inj hi hj (hlog hkey)
        · exact absurd hkey hother
      · rcases List.mem_pair.mp hy with rfl | rfl
        · exact absurd hkey.symm hother'
        · exact documentedName_inj hi hj (hutc hkey))
    (by push_cast; exact hcount)
  refine ⟨k, hk, ⟨hfree _ (by simp), hfree _ (by simp)⟩, fun j hj hnone => ?_⟩
  obtain ⟨x, hx, htaken⟩ := hbefore j hj
  rcases List.mem_pair.mp hx with rfl | rfl
  · exact htaken hnone.1
  · exact htaken hnone.2

variable {resolve d}

/-- The search never ends at a name in use. -/
theorem searchPath_free {format : UInt32 → Text} {fuel : ℕ} {counter : UInt32} {path : Text}
    (h : searchPath resolve d format fuel counter = some path) :
    stat resolve d path = none ∧ stat resolve d (utcPathOf path) = none := by
  induction fuel generalizing counter with
  | zero => cases h
  | succ fuel ih =>
    rw [searchPath] at h
    split at h
    · rename_i hfree
      obtain rfl := Option.some.inj h
      rwa [Bool.and_eq_true, Option.isNone_iff_eq_none, Option.isNone_iff_eq_none] at hfree
    · exact ih h

theorem searchDefaultPath_free {fuel : ℕ} {path : Text}
    (h : searchDefaultPath resolve d fuel utcMs = some path) :
    stat resolve d path = none ∧ stat resolve d (utcPathOf path) = none := by
  unfold searchDefaultPath at h
  split at h
  · exact searchPath_free h
  · exact searchPath_free h

theorem searchPath_succ {format : UInt32 → Text} {name : Text} {counter : UInt32} (fuel : ℕ)
    (hname : format counter = sdRoot ++ name) :
    searchPath resolve d format (fuel + 1) counter =
      if (stat resolve d (pathOf name)).isNone && (stat resolve d (utcPathOf (pathOf name))).isNone
      then some (pathOf name) else searchPath resolve d format fuel (counter + 1) := by
  rw [searchPath, hname, ← pathOf]

/-- The search ends at the first free name. -/
theorem searchPath_eq {format : UInt32 → Text} {name : ℕ → Text} {k fuel : ℕ} {counter : UInt32}
    (hformat : ∀ j ≤ k, format (counter + UInt32.ofNat j) = sdRoot ++ name j)
    (hfuel : k < fuel) (hfree : IsFree resolve d (name k))
    (hbefore : ∀ j < k, ¬ IsFree resolve d (name j)) :
    searchPath resolve d format fuel counter = some (pathOf (name k)) := by
  induction k generalizing counter name fuel with
  | zero =>
    obtain ⟨fuel, rfl⟩ := Nat.exists_eq_add_of_lt hfuel
    have hfirst : format counter = sdRoot ++ name 0 := by simpa using hformat 0 le_rfl
    rw [Nat.zero_add, searchPath_succ fuel hfirst, hfree.1, hfree.2]
    rfl
  | succ k ih =>
    obtain ⟨fuel, rfl⟩ := Nat.exists_eq_add_of_lt hfuel
    have hfirst : format counter = sdRoot ++ name 0 := by simpa using hformat 0 (Nat.zero_le _)
    have htaken : ¬ ((stat resolve d (pathOf (name 0))).isNone &&
        (stat resolve d (utcPathOf (pathOf (name 0)))).isNone) = true := by
      rw [Bool.and_eq_true, Option.isNone_iff_eq_none, Option.isNone_iff_eq_none]
      exact hbefore 0 (Nat.succ_pos k)
    rw [searchPath_succ _ hfirst, if_neg htaken]
    refine @ih (fun j => name (j + 1)) (k + 1 + fuel) (counter + 1) (fun j hj => ?_) (by omega)
      hfree fun j hj => hbefore (j + 1) (by omega)
    have hcounter : counter + 1 + UInt32.ofNat j = counter + UInt32.ofNat (j + 1) := by
      rw [UInt32.ofNat_add, UInt32.add_assoc, UInt32.add_comm 1]
      rfl
    rw [hcounter, hformat (j + 1) (by omega)]

theorem documentedName_of_pos (hutc : utcMs > 0) (k : ℕ) : documentedName utcMs k =
    logPrefix ++ timeText utcMs.toNat ++ tailText true k ++ binSuffix := by
  simp only [documentedName, hutc, decide_true, if_true]

theorem documentedName_of_not_pos (hutc : ¬ utcMs > 0) (k : ℕ) : documentedName utcMs k =
    logPrefix ++ tailText false k ++ binSuffix := by
  simp only [documentedName, hutc, decide_false, if_false, List.append_nil]

theorem numberedPath_eq (hutc : ¬ utcMs > 0) (k : ℕ) :
    numberedPath (1 + UInt32.ofNat k) = sdRoot ++ documentedName utcMs k := by
  have hcounter : (1 + UInt32.ofNat k).toNat = (k + 1) % 2 ^ 32 := by
    rw [Nat.add_comm k 1, ← UInt32.toNat_ofNat', UInt32.ofNat_add]
    rfl
  have htail : tailText false k = paddedText 4 ((k + 1) % 2 ^ 32) := if_neg Bool.false_ne_true
  rw [numberedPath, hcounter, documentedName_of_not_pos hutc, htail]
  simp only [List.append_assoc]

theorem stampedPath_eq (timestamp : Text) {k : ℕ} (hk : k < 2 ^ 32) :
    stampedPath timestamp (0 + UInt32.ofNat k) =
      sdRoot ++ (timestamp ++ tailText true k ++ binSuffix) := by
  have hcounter : (UInt32.ofNat k).toNat = k := by
    rw [UInt32.toNat_ofNat', Nat.mod_eq_of_lt hk]
  have hzero : UInt32.ofNat k = 0 ↔ k = 0 := by
    rw [← UInt32.toNat_inj, hcounter]
    rfl
  rw [UInt32.zero_add, stampedPath, tailText, if_pos rfl]
  by_cases hfirst : k = 0
  · rw [if_pos (hzero.mpr hfirst), if_pos hfirst, List.append_nil, List.append_assoc]
  · rw [if_neg (mt hzero.mp hfirst), if_neg hfirst, hcounter]
    simp only [List.append_assoc]

theorem strftime_timestampFormat {date : CivilDate} {hour minute second : ℕ}
    (hyear : 1970 ≤ date.year) (hmonth : 1 ≤ date.month)
    (hlength : (stampText date hour minute second).length ≤ 19) :
    strftime 32 timestampFormat
      ⟨date.year - 1900, date.month - 1, date.day, hour, minute, second⟩ =
      some (logPrefix ++ stampText date hour minute second) := by
  have hyears : date.year - 1900 + 1900 = date.year := by omega
  have hmonths : date.month - 1 + 1 = date.month := by omega
  have htext : timestampFormat.flatMap (Conversion.text
      ⟨date.year - 1900, date.month - 1, date.day, hour, minute, second⟩) =
      logPrefix ++ stampText date hour minute second := by
    simp only [timestampFormat, List.flatMap_append, List.flatMap_cons, List.flatMap_nil,
      Conversion.text, stampText, hyears, hmonths, List.append_assoc, List.cons_append,
      List.nil_append, List.append_nil]
    rfl
  have hfits : (logPrefix ++ stampText date hour minute second).length < 32 := by
    have hlog : logPrefix.length = 4 := rfl
    rw [List.length_append, hlog]
    omega
  simp only [strftime, htext, if_pos hfits]

/-- The timestamp of a year with four digits fits in its buffer. -/
theorem timestampOf_eq (hutc : utcMs > 0) (hlt : utcMs < 2 ^ 63)
    (hyear : (civilOfDays (utcMs.toNat / 86400000)).year < 10000) :
    timestampOf utcMs = some (logPrefix ++ timeText utcMs.toNat) := by
  obtain ⟨ms, rfl⟩ := Int.eq_ofNat_of_zero_le hutc.le
  have hseconds : ((ms : ℤ) / 1000).toNat = ms / 1000 := by omega
  rw [Int.toNat_natCast] at hyear ⊢
  have hmonth := (month_civilOfDays (ms / 86400000)).1
  have hyear' := (year_civilOfDays (ms / 86400000)).2
  rw [timestampOf, if_pos hutc, hseconds, PairedExport.gmtimeR_ms (by omega), Option.bind_some,
    strftime_timestampFormat hyear' hmonth (length_timeText_le hyear), timeText]

theorem baseName_of_noSlash {name : Text} (h : ∀ c ∈ name, c ≠ '/') :
    baseName (sdRoot ++ name) = name := by
  have hroot : sdRoot = "/sdcard".toList ++ ['/'] := rfl
  have hreverse : (sdRoot ++ name).reverse = name.reverse ++ '/' :: "/sdcard".toList.reverse := by
    simp [hroot]
  rw [baseName, hreverse, List.takeWhile_append_of_pos, List.takeWhile_cons_of_neg, List.append_nil,
    List.reverse_reverse]
  · decide
  · intro c hc
    simpa using h c (List.mem_reverse.mp hc)

theorem baseName_of_valid {name : Text} (h : dataLoggerValidFilename name = true) :
    baseName (sdRoot ++ name) = name := by
  obtain ⟨hlength, -, hsuffix⟩ := validFilename_bounds h
  apply baseName_of_noSlash
  intro c hc
  rw [← List.take_append_drop (name.length - 4) name, hsuffix] at hc
  rcases List.mem_append.mp hc with hstem | hend
  · have hall : (name.take (name.length - 4)).all
        (fun c => c.isAlphanum || c == '_' || c == '-') = true := by
      unfold dataLoggerValidFilename at h
      split at h
      · cases h
      · exact h
    rintro rfl
    exact absurd (List.all_eq_true.mp hall _ hstem) (by decide)
  · rintro rfl
    exact absurd hend (by decide)

theorem searchDefaultPath_eq {k fuel : ℕ} (hlt : utcMs < 2 ^ 63)
    (hyear : utcMs > 0 → (civilOfDays (utcMs.toNat / 86400000)).year < 10000)
    (hk : k < 2 ^ 32) (hfuel : k < fuel) (hfree : IsFree resolve d (documentedName utcMs k))
    (hbefore : ∀ j < k, ¬ IsFree resolve d (documentedName utcMs j)) :
    searchDefaultPath resolve d fuel utcMs = some (pathOf (documentedName utcMs k)) := by
  by_cases hutc : utcMs > 0
  · rw [searchDefaultPath, timestampOf_eq hutc hlt (hyear hutc)]
    refine searchPath_eq (fun j hj => ?_) hfuel hfree hbefore
    rw [stampedPath_eq _ (hj.trans_lt hk), documentedName_of_pos hutc]
  · rw [searchDefaultPath, timestampOf, if_neg hutc]
    exact searchPath_eq (fun j _ => numberedPath_eq hutc j) hfuel hfree hbefore

/-- A session without a name is not refused for the sake of an existing file. -/
theorem dataLoggerStart_default [DecidableEq κ] {rate : NodeRegistry.TickRate} {fuel : ℕ}
    {started : UInt32} {readings : List (Int64 × UInt32)} {name : Text} {s : Logger}
    {o : StartOutcome} {fresh : β} (hvalid : dataLoggerValidFilename name = true)
    (hchosen : chooseDefaultLogPath resolve d rate fuel started readings = some (sdRoot ++ name))
    (hidle : s.state = .idle) :
    ∃ chosen : DefaultPath, chosen.path = sdRoot ++ name ∧
      dataLoggerStart resolve d s (.default chosen) o fresh =
        if !o.mutex then (d, s, .openFailed) else createFiles resolve d s chosen.path o fresh := by
  obtain ⟨⟨stem, hstem⟩, hfits⟩ := isLogPath_pathOf hvalid
  rw [pathOf_eq hvalid] at hstem hfits
  have hpath : (DefaultPath.mk stem (hstem ▸ hfits)).path = sdRoot ++ name := hstem.symm
  obtain ⟨utcMs, -, hsearch⟩ := Option.bind_eq_some_iff.mp hchosen
  obtain ⟨hlog, hutc⟩ := searchDefaultPath_free hsearch
  refine ⟨_, hpath, ?_⟩
  simp [dataLoggerStart, candidatePath, hidle, pathExists, hpath, hlog, hutc]

theorem distinguishesNames_caseFold : DistinguishesNames caseFold := by
  intro a b ha hb
  rw [(isLogPath_pathOf ha).utcPathOf_eq, (isLogPath_pathOf hb).utcPathOf_eq, pathOf_eq ha,
    pathOf_eq hb]
  refine ⟨fun h => ?_, fun h => ?_, fun h => ?_⟩
  · rw [caseFold_append, caseFold_append] at h
    exact List.append_cancel_left h
  · rw [caseFold_append, caseFold_append, caseFold_append, caseFold_append] at h
    exact List.append_cancel_left (List.append_cancel_right h)
  · obtain ⟨⟨stem, hstem⟩, -⟩ := isLogPath_pathOf ha
    rw [pathOf_eq ha] at hstem
    rw [hstem] at h
    have hlast := congrArg List.getLast? h
    simp [caseFold, binSuffix, utcSuffix, List.getLast?_append] at hlast

theorem distinguishesNames_id : DistinguishesNames (id : Text → Text) := by
  intro a b ha hb
  obtain ⟨hlog, hutc, hother⟩ := distinguishesNames_caseFold a b ha hb
  exact ⟨fun h => hlog (congrArg caseFold h), fun h => hutc (congrArg caseFold h),
    fun h => hother (congrArg caseFold h)⟩

/-- The search ends at the first of the documented names under which nothing exists. The name is
whole and an accepted one, so that the recording can be listed, downloaded and renamed. -/
theorem chooseDefaultLogPath_first_free [DecidableEq κ] (hnames : DistinguishesNames resolve)
    (hcount : {key | d key ≠ none}.encard < 2 ^ 32) (rate : NodeRegistry.TickRate)
    (started : UInt32) (readings : List (Int64 × UInt32)) (utcMs : Int64)
    (hwait : awaitUtc (UInt32.ofNat (rate.ticksOf defaultNameGpsWaitMs)) started readings =
      some utcMs)
    (hyear : utcMs.toInt > 0 → (civilOfDays (utcMs.toInt.toNat / 86400000)).year < 10000) :
    ∃ k < 2 ^ 32,
      let name := documentedName utcMs.toInt k
      let path := sdRoot ++ name
      (∀ fuel > k, chooseDefaultLogPath resolve d rate fuel started readings = some path) ∧
        IsFree resolve d name ∧ (∀ j < k, ¬ IsFree resolve d (documentedName utcMs.toInt j)) ∧
        path.length < logPathLength ∧ (path ++ utcSuffix).length < logPathLength + 8 ∧
        baseName path = name ∧ dataLoggerValidFilename name = true ∧
        ∀ (finished : Directory κ β) (s : Logger) (contents : β), s.state = .idle →
          finished (resolve path) = some (.file contents) → Usable resolve finished s name := by
  obtain ⟨k, hk, hfree, hbefore⟩ := exists_first_isFree hnames hyear hcount
  have hvalid := validFilename_documentedName hk hyear
  have hpath := pathOf_eq hvalid
  have hfits : (sdRoot ++ documentedName utcMs.toInt k).length < logPathLength :=
    hpath ▸ (isLogPath_pathOf hvalid).fits
  refine ⟨k, hk, fun fuel hfuel => ?_, hfree, hbefore, hfits, ?_, baseName_of_valid hvalid, hvalid,
    fun finished s contents hidle hfile => ?_⟩
  · rw [chooseDefaultLogPath, hwait, Option.bind_some,
      searchDefaultPath_eq (Int64.toInt_lt _) hyear hk hfuel hfree hbefore, hpath]
  · have hsuffix : utcSuffix.length = 4 := rfl
    rw [List.length_append, hsuffix]
    omega
  · exact usable_of_file hidle hvalid (hpath ▸ hfile) (hnames _ _ hvalid hvalid).2.2

/-- Orphans: a recording without its companion and a companion without its recording. -/
def orphanCard : Directory Text Unit :=
  Function.update (Function.update (fun _ => none) "/sdcard/log_0001.bin".toList
    (some (.file ()))) "/sdcard/log_0002.bin.utc".toList (some (.file ()))

theorem encard_orphanCard : {key | orphanCard key ≠ none}.encard < 2 ^ 32 := by
  have hentries : {key | orphanCard key ≠ none} ⊆
      {"/sdcard/log_0001.bin".toList, "/sdcard/log_0002.bin.utc".toList} := by
    intro key hkey
    by_contra hother
    simp only [Set.mem_insert_iff, Set.mem_singleton_iff, not_or] at hother
    exact hkey (by rw [orphanCard, Function.update_of_ne hother.2, Function.update_of_ne hother.1])
  refine (Set.encard_le_encard hentries).trans_lt ?_
  rw [Set.encard_pair (by decide)]
  exact_mod_cast (by decide : 2 < 2 ^ 32)

theorem orphanCard_chosen :
    chooseDefaultLogPath caseFold orphanCard ⟨1000, le_rfl⟩ 3 0 [(0, 3000)] =
      some "/sdcard/log_0003.bin".toList := by
  have hwait : awaitUtc (UInt32.ofNat (NodeRegistry.TickRate.ticksOf ⟨1000, le_rfl⟩
      defaultNameGpsWaitMs)) 0 [(0, 3000)] = some 0 := by decide
  obtain ⟨k, -, hpath, hfree, hbefore, -⟩ := chooseDefaultLogPath_first_free
    distinguishesNames_caseFold encard_orphanCard ⟨1000, le_rfl⟩ 0 [(0, 3000)] 0 hwait (by decide)
  have hfirst : ¬ IsFree caseFold orphanCard (documentedName 0 0) := fun h => by
    exact absurd h.1 (by decide +kernel)
  have hsecond : ¬ IsFree caseFold orphanCard (documentedName 0 1) := fun h => by
    exact absurd h.2 (by decide +kernel)
  have hthird : IsFree caseFold orphanCard (documentedName 0 2) :=
    ⟨by decide +kernel, by decide +kernel⟩
  have hk : k = 2 := by
    have hle : ¬ 2 < k := fun h => hbefore 2 h hthird
    have hne : k ≠ 0 := by
      rintro rfl
      exact hfirst hfree
    have hne' : k ≠ 1 := by
      rintro rfl
      exact hsecond hfree
    omega
  rw [hpath 3 (by omega), hk]
  decide +kernel

def numberedFile (i : ℕ) : Text := logPrefix ++ paddedText 4 i ++ binSuffix

/-- Every number from 1 on is taken. -/
def fullCard : Directory Text Unit := fun path =>
  if ∃ i < 2 ^ 32, 0 < i ∧ path = sdRoot ++ numberedFile i then some (.file ()) else none

theorem numberedFile_inj {i j : ℕ} : numberedFile i = numberedFile j ↔ i = j := by
  rw [numberedFile, numberedFile, List.append_cancel_right_eq, List.append_cancel_left_eq,
    paddedText_inj]

theorem documentedName_zero (k : ℕ) : documentedName 0 k = numberedFile ((k + 1) % 2 ^ 32) := rfl

theorem validFilename_numberedFile {i : ℕ} (hi : i < 2 ^ 32) (hpos : 0 < i) :
    dataLoggerValidFilename (numberedFile i) = true := by
  have hvalid := @validFilename_documentedName 0 (i - 1) (by omega) nofun
  rwa [documentedName_zero, Nat.sub_add_cancel hpos, Nat.mod_eq_of_lt hi] at hvalid

theorem fullCard_eq_none_iff {path : Text} : fullCard path = none ↔
    ∀ i < 2 ^ 32, 0 < i → path ≠ sdRoot ++ numberedFile i := by
  unfold fullCard
  split
  · rename_i htaken
    obtain ⟨i, hi, hpos, hpath⟩ := htaken
    exact ⟨nofun, fun h => absurd hpath (h i hi hpos)⟩
  · rename_i hfree
    exact ⟨fun _ i hi hpos hpath => hfree ⟨i, hi, hpos, hpath⟩, fun _ => rfl⟩

theorem encard_fullCard : {key | fullCard key ≠ none}.encard < 2 ^ 32 := by
  have hsubset : {key | fullCard key ≠ none} ⊆
      (fun i => sdRoot ++ numberedFile i) '' (Finset.Ioo 0 (2 ^ 32) : Finset ℕ) := by
    intro key hkey
    by_contra hother
    refine hkey (fullCard_eq_none_iff.mpr fun i hi hpos hpath => hother ⟨i, ?_, hpath.symm⟩)
    exact Finset.mem_coe.mpr (Finset.mem_Ioo.mpr ⟨hpos, hi⟩)
  refine ((Set.encard_le_encard hsubset).trans (Set.encard_image_le _ _)).trans_lt ?_
  rw [Set.encard_coe_eq_coe_finsetCard, Nat.card_Ioo]
  exact_mod_cast (by decide : 2 ^ 32 - 0 - 1 < 2 ^ 32)

/-- Nothing is free before the counter has wrapped, and then the number 0 is. -/
theorem isFree_fullCard_iff {k : ℕ} (hk : k < 2 ^ 32) :
    IsFree id fullCard (documentedName 0 k) ↔ k + 1 = 2 ^ 32 := by
  have hvalid : dataLoggerValidFilename (documentedName 0 k) = true :=
    validFilename_documentedName hk nofun
  have hpath := pathOf_eq hvalid
  have hlog := isLogPath_pathOf hvalid
  rw [documentedName_zero] at hpath hlog ⊢
  rw [IsFree, stat, stat, id, id, fullCard_eq_none_iff, fullCard_eq_none_iff]
  constructor
  · rintro ⟨hfree, -⟩
    by_contra hlast
    have hmod : (k + 1) % 2 ^ 32 = k + 1 := Nat.mod_eq_of_lt (by omega)
    refine hfree (k + 1) (by omega) (Nat.succ_pos k) ?_
    rw [hpath, hmod]
  · intro hlast
    refine ⟨fun i hi hpos heq => ?_, fun i hi hpos heq => ?_⟩
    · rw [hpath, List.append_cancel_left_eq, numberedFile_inj, hlast, Nat.mod_self] at heq
      omega
    · have hvalid := validFilename_numberedFile hi hpos
      rw [← pathOf_eq hvalid] at heq
      exact (isLogPath_pathOf hvalid).ne_utcPathOf hlog heq.symm

/-- With 2 ^ 32 - 1 recordings on the card the number 0 is chosen, which no numbered name has. -/
theorem fullCard_chosen : DistinguishesNames (id : Text → Text) ∧
    {key | fullCard key ≠ none}.encard < 2 ^ 32 ∧
    chooseDefaultLogPath id fullCard ⟨1000, le_rfl⟩ (2 ^ 32) 0 [(0, 3000)] =
      some "/sdcard/log_0000.bin".toList ∧
    ∀ i > 0, "/sdcard/log_0000.bin".toList ≠ sdRoot ++ numberedFile i := by
  have hzero : "/sdcard/log_0000.bin".toList = sdRoot ++ numberedFile 0 := by decide
  obtain ⟨last, hlast⟩ : ∃ last, last + 1 = 2 ^ 32 := ⟨2 ^ 32 - 1, by omega⟩
  have hwait : awaitUtc (UInt32.ofNat (NodeRegistry.TickRate.ticksOf ⟨1000, le_rfl⟩
      defaultNameGpsWaitMs)) 0 [(0, 3000)] = some 0 := by decide
  have hvalid : dataLoggerValidFilename (documentedName 0 last) = true :=
    validFilename_documentedName (by omega) nofun
  have hpath := pathOf_eq hvalid
  have hsearch : searchDefaultPath id fullCard (2 ^ 32) 0 =
      some (pathOf (documentedName 0 last)) := by
    refine searchDefaultPath_eq (by decide) nofun (by omega) (by omega)
      ((isFree_fullCard_iff (by omega)).mpr hlast) fun j hj hfree => ?_
    have hj' := (isFree_fullCard_iff (by omega)).mp hfree
    omega
  refine ⟨distinguishesNames_id, encard_fullCard, ?_, fun i hpos heq => ?_⟩
  · rw [chooseDefaultLogPath, hwait, Option.bind_some, hzero]
    change searchDefaultPath id fullCard (2 ^ 32) 0 = _
    rw [hsearch, hpath, documentedName_zero, hlast, Nat.mod_self]
  · rw [hzero, List.append_cancel_left_eq, numberedFile_inj] at heq
    omega

end BajaDaq.DefaultNames

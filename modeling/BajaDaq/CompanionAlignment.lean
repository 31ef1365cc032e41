import BajaDaq.SessionWriter

/-!
# The binary and its UTC companion under I/O failures

The companion is always a prefix of the UTC values in the order the samples were taken. The
binary can fall behind it, because the result of its flush and of its close is ignored; once
that happened, every record appended later is paired with the entry of an earlier sample.
-/

namespace BajaDaq.CompanionAlignment
open FixedItems LogFiles SessionWriter StdioFiles TransitionRuns

/-- Record `k` of the binary and entry `k` of the companion are those of the sample `x`. -/
def PairedAt (s : Session) (k : ℕ) (x : QueuedSample) : Prop :=
  (items recordSize s.writer.files.log.disk)[k]? = some (recordBytes x) ∧
    (items utcSize s.writer.files.utc.disk)[k]? = some (utcBytes x)

instance (s : Session) (k : ℕ) (x : QueuedSample) : Decidable (PairedAt s k x) :=
  inferInstanceAs (Decidable (_ ∧ _))

/-- A step that completes a record in the binary starts while the binary holds a record for
every entry of the companion. -/
def EntriesCovered (s : Session) (e : Event) : Prop :=
  recordSize ≤ s.writer.files.log.contents.length % recordSize + e.accepted s.writer →
    s.writer.files.utc.contents.length / utcSize * recordSize ≤
      s.writer.files.log.contents.length

instance (s : Session) (e : Event) : Decidable (EntriesCovered s e) :=
  inferInstanceAs (Decidable (_ → _))

/-- While the companion is open it has exactly the entries of the dropped samples, and the
binary at most their records. -/
def InStep (s : Session) (done : List QueuedSample) : Prop :=
  s.writer.files.utc.disk = s.writer.files.utc.contents ∧
    s.writer.files.utc.contents = done.flatMap utcBytes ∧
    s.writer.files.log.contents <+: done.flatMap recordBytes

/-- `n` is the number of entries in the companion. The complete records they belong to are
those of the first samples, as far as the binary has them. -/
structure AlignmentInvariant (s : Session) (done : List QueuedSample) (n : ℕ) : Prop where
  taken : s.taken = done ++ s.writer.block
  entries : Encodes utcSize utcBytes (s.taken.take n) s.writer.files.utc.contents
  bound : n ≤ s.taken.length
  records : ∃ l, l <+: s.taken ∧
    Encodes recordSize recordBytes l (s.writer.files.log.contents.take (n * recordSize))
  inStep : s.writer.files.utc.isOpen = true → InStep s done

theorem alignmentInvariant_start : AlignmentInvariant .start [] 0 where
  taken := rfl
  entries := Encodes.nil utcSize_pos
  bound := Nat.zero_le _
  records := ⟨[], List.prefix_rfl, Encodes.nil recordSize_pos⟩
  inStep := fun _ => ⟨rfl, rfl, List.prefix_rfl⟩

theorem AlignmentInvariant.count {s : Session} {done : List QueuedSample} {n : ℕ}
    (h : AlignmentInvariant s done n) :
    s.writer.files.utc.contents.length / utcSize = n := by
  rw [h.entries.length_div utcSize_pos length_utcBytes, List.length_take]
  exact Nat.min_eq_left h.bound

/-- The samples accounted for after a step: a dropped block is added to `done`. -/
theorem taken_step {s t : Session} {e : Event} {done : List QueuedSample}
    (h : step s e = some t) (hdone : s.taken = done ++ s.writer.block) :
    t.taken = done ++ e.pending s.writer := by
  rw [(step_eq h).2.1, hdone, Event.pending, List.append_assoc]

theorem exists_done {s t : Session} {e : Event} {done : List QueuedSample}
    (h : step s e = some t) (hdone : s.taken = done ++ s.writer.block) :
    ∃ done', t.taken = done' ++ t.writer.block := by
  have htaken := taken_step h hdone
  rcases block_run s.writer e with hb | hb
  · exact ⟨done, by rw [htaken, (step_eq h).1, hb]⟩
  · exact ⟨done ++ e.pending s.writer, by rw [htaken, (step_eq h).1, hb, List.append_nil]⟩

/-- Without a companion the entries are final, and the binary is only extended behind them. -/
theorem alignmentInvariant_step_closed {s t : Session} {e : Event}
    {done : List QueuedSample} {n : ℕ} (hI : AlignmentInvariant s done n)
    (hC : EntriesCovered s e) (h : step s e = some t)
    (hutc : s.writer.files.utc.isOpen = false) :
    ∃ done', AlignmentInvariant t done' n := by
  obtain ⟨done', hdone'⟩ := exists_done h hI.taken
  obtain ⟨hw, htaken, -⟩ := step_eq h
  have hutc' : t.writer.files.utc = s.writer.files.utc := by rw [hw, utc_run_of_closed e hutc]
  have htake : t.taken.take n = s.taken.take n := by
    rw [htaken, List.take_append_of_le_length hI.bound]
  refine ⟨done', hdone', by rw [htake, hutc']; exact hI.entries, ?_, ?_, ?_⟩
  · rw [htaken, List.length_append]
    exact hI.bound.trans (Nat.le_add_right _ _)
  · have hlog := (log_run s.writer e).take (n * recordSize)
    rw [← hw] at hlog
    obtain ⟨l, hl, henc⟩ := hI.records
    have hl' : l <+: t.taken := hl.trans (by rw [htaken]; exact List.prefix_append _ _)
    rcases Nat.lt_or_ge s.writer.files.log.contents.length (n * recordSize) with hlt | hge
    · -- entries without a record: the step completes none
      rw [List.take_of_length_le hlt.le] at henc
      have hshort : s.writer.files.log.contents.length % recordSize +
          (acceptedPart s.writer e).length < recordSize := by
        rw [length_acceptedPart]
        by_contra hfull
        have hcovered := hC (by omega)
        rw [hI.count] at hcovered
        omega
      obtain ⟨l', hll, henc'⟩ := (henc.append_short length_recordBytes hshort).restrict
        recordSize_pos length_recordBytes (hlog.trans (List.take_prefix _ _))
      exact ⟨l', hll.trans hl', henc'⟩
    · rw [List.take_append_of_le_length hge] at hlog
      obtain ⟨l', hll, henc'⟩ := henc.restrict recordSize_pos length_recordBytes hlog
      exact ⟨l', hll.trans hl', henc'⟩
  · intro hopen
    rw [hutc', hutc] at hopen
    cases hopen

/-- With the companion open the binary has all its records before bytes are added, so both
files gain the same samples. -/
theorem alignmentInvariant_step_open {s t : Session} {e : Event}
    {done : List QueuedSample} {n : ℕ} (hI : AlignmentInvariant s done n)
    (hC : EntriesCovered s e) (h : step s e = some t)
    (hutc : s.writer.files.utc.isOpen = true) :
    ∃ done' n', AlignmentInvariant t done' n' := by
  obtain ⟨hsettled, hentries, hlogdone⟩ := hI.inStep hutc
  have hw := (step_eq h).1
  have htaken := taken_step h hI.taken
  have hn : n = done.length := by
    have hcount := hI.count
    rw [hentries, length_flatMap_const length_utcBytes,
      Nat.mul_div_cancel _ utcSize_pos] at hcount
    exact hcount.symm
  have hrun := log_run s.writer e
  rw [← hw] at hrun
  -- either the binary is complete, or what is appended completes no record
  have hcases : t.writer.files.log.contents <+:
        done.flatMap recordBytes ++ acceptedPart s.writer e ∨
      s.writer.files.log.contents.length % recordSize + e.accepted s.writer < recordSize := by
    rcases Nat.lt_or_ge (s.writer.files.log.contents.length % recordSize +
        e.accepted s.writer) recordSize with hlt | hge
    · exact .inr hlt
    · have hcovered := hC hge
      rw [hI.count, hn, ← length_flatMap_const length_recordBytes] at hcovered
      rw [hlogdone.eq_of_length_le hcovered] at hrun
      exact .inl hrun
  have hpart : done.flatMap recordBytes ++ acceptedPart s.writer e <+:
      t.taken.flatMap recordBytes := by
    rw [htaken, List.flatMap_append]
    exact (List.prefix_append_right_inj _).mpr (List.take_prefix _ _)
  obtain ⟨r, hr, hrenc⟩ : ∃ r, r <+: t.taken ∧
      Encodes recordSize recordBytes r t.writer.files.log.contents := by
    rcases hcases with hlog | hshort
    · exact (Encodes.of_eq recordSize_pos rfl).restrict recordSize_pos length_recordBytes
        (hlog.trans hpart)
    · obtain ⟨r, hr, hrenc⟩ := (Encodes.of_eq recordSize_pos rfl).restrict recordSize_pos
        length_recordBytes hlogdone
      obtain ⟨r', hr', hrenc'⟩ := (hrenc.append_short length_recordBytes
        (by rwa [length_acceptedPart])).restrict recordSize_pos length_recordBytes hrun
      refine ⟨r', (hr'.trans hr).trans ?_, hrenc'⟩
      rw [htaken]
      exact List.prefix_append _ _
  -- the entries on the companion belong to a prefix of the samples taken
  obtain ⟨l, hl, hlenc⟩ : ∃ l, l <+: t.taken ∧
      Encodes utcSize utcBytes l t.writer.files.utc.contents := by
    have hrun := utc_run s.writer e
    rw [← hw, hentries, ← List.flatMap_append] at hrun
    obtain ⟨l, hl, hlenc⟩ := (Encodes.of_eq utcSize_pos rfl).restrict utcSize_pos
      length_utcBytes hrun
    refine ⟨l, hl.trans ?_, hlenc⟩
    rw [htaken]
    exact (List.prefix_append_right_inj _).mpr (List.take_prefix _ _)
  have hltake : t.taken.take l.length = l := (List.prefix_iff_eq_take.mp hl).symm
  have hrecords : ∃ r', r' <+: t.taken ∧ Encodes recordSize recordBytes r'
      (t.writer.files.log.contents.take (l.length * recordSize)) := by
    obtain ⟨r', hr', hrenc'⟩ := hrenc.restrict recordSize_pos length_recordBytes
      (List.take_prefix _ _)
    exact ⟨r', hr'.trans hr, hrenc'⟩
  by_cases hopen : t.writer.files.utc.isOpen = true
  · have hkeep := utc_run_of_open hsettled (hw ▸ hopen)
    rw [← hw] at hkeep
    obtain ⟨hsettled', hkeep⟩ := hkeep
    have hlog : t.writer.files.log.contents <+:
        done.flatMap recordBytes ++ acceptedPart s.writer e := by
      rcases hcases with hlog | hshort
      · exact hlog
      · have hz : e.accepted s.writer = 0 := by
          rcases hkeep with ⟨-, hall, -⟩ | ⟨-, hz, -⟩
          · unfold recordSize at hall hshort
            omega
          · exact hz
        simpa [acceptedPart, hz] using hrun.trans (by simpa [acceptedPart, hz] using hlogdone)
    obtain ⟨hb, -, hcontents⟩ | ⟨hb, hz, hcontents⟩ := hkeep
    · refine ⟨done ++ e.pending s.writer, l.length, by rw [hb, htaken, List.append_nil],
        by rwa [hltake], hl.length_le, hrecords, fun _ => ⟨hsettled', ?_, ?_⟩⟩
      · rw [hcontents, hentries, List.flatMap_append]
      · rw [← htaken]
        exact hlog.trans hpart
    · refine ⟨done, l.length, by rw [hb, htaken], by rwa [hltake], hl.length_le, hrecords,
        fun _ => ⟨hsettled', hcontents.trans hentries, ?_⟩⟩
      simpa [acceptedPart, hz] using hlog
  · obtain ⟨done', hdone'⟩ := exists_done h hI.taken
    exact ⟨done', l.length, hdone', by rwa [hltake], hl.length_le, hrecords,
      fun h' => absurd h' hopen⟩

/-- In every run whose steps complete records only while the binary has one for every entry,
record and entry `k` are those of the `k`-th sample taken, as far as both files have them. -/
theorem pairedAt_of_run {es : List Event} {s : Session} (h : Run step EntriesCovered .start es s)
    (k : ℕ) (hlog : k < (items recordSize s.writer.files.log.disk).length)
    (hutc : k < (items utcSize s.writer.files.utc.disk).length) :
    ∃ x, s.taken[k]? = some x ∧ PairedAt s k x := by
  obtain ⟨done, n, hI⟩ : ∃ done n, AlignmentInvariant s done n := by
    refine h.invariant (I := fun s => ∃ done n, AlignmentInvariant s done n)
      ⟨[], 0, alignmentInvariant_start⟩ ?_
    rintro s e t ⟨done, n, hI⟩ hC hs
    cases hutc : s.writer.files.utc.isOpen with
    | false =>
      obtain ⟨done', hI'⟩ := alignmentInvariant_step_closed hI hC hs hutc
      exact ⟨done', n, hI'⟩
    | true => exact alignmentInvariant_step_open hI hC hs hutc
  have hdisk := StdioFile.disk_prefix s.writer.files.utc
  obtain ⟨l, hl, henc⟩ := hI.entries.restrict utcSize_pos length_utcBytes hdisk
  have hitems := henc.items_eq utcSize_pos length_utcBytes
  rw [hitems, List.length_map] at hutc
  have hkn : k < n := by
    have := hl.length_le
    rw [List.length_take] at this
    omega
  obtain ⟨r, hr, hrenc⟩ := hI.records
  obtain ⟨r', hr', hrenc'⟩ := hrenc.restrict recordSize_pos length_recordBytes
    ((StdioFile.disk_prefix s.writer.files.log).take (n * recordSize))
  obtain ⟨x, hx, hrecord⟩ := hrenc'.getElem?_items recordSize_pos length_recordBytes hlog
    (Nat.mul_le_mul_right _ hkn)
  have hx : s.taken[k]? = some x := by
    have hk := (List.getElem?_eq_some_iff.mp hx).1
    rw [← hx, List.prefix_iff_getElem?.mp (hr'.trans hr) k hk, List.getElem?_eq_getElem hk]
  refine ⟨x, hx, hrecord, ?_⟩
  have hlk : l[k]? = some x := by
    rw [List.prefix_iff_getElem?.mp (hl.trans (List.take_prefix _ _)) k hutc] at hx
    rw [List.getElem?_eq_getElem hutc]
    exact hx
  rw [hitems, List.getElem?_map, hlk]
  rfl

def brakeSample : QueuedSample :=
  ⟨⟨AppProtocol.canIdFrontBrake, 8, 0x000003E8000005DC⟩, 1790000000000⟩
def bearingSample : QueuedSample :=
  ⟨⟨AppProtocol.canIdBearingEncoder, 8, 0x000003F200000064⟩, 1790000000010⟩

/-- The flush of the binary loses the last record, at the end of the session. -/
def lostAtStop : List Event :=
  [.receive brakeSample (.success 0), .receive bearingSample (.success 0),
    .finish ⟨32, 16, .ok, .ok, .failed 16⟩ ⟨.ok, .ok⟩]

theorem lostAtStop_paired :
    ∃ s, Run step EntriesCovered .start lostAtStop s ∧ s.closed = true ∧
      ∃ x, s.taken[0]? = some x ∧ PairedAt s 0 x := by
  have h : Run step EntriesCovered .start lostAtStop _ := Run.of_exec rfl
  exact ⟨_, h, rfl, pairedAt_of_run h 0 (by decide) (by decide)⟩

/-- The flush at a checkpoint loses the first sample's record after its entry was stored. -/
def lostAtCheckpoint : List Event :=
  [.receive brakeSample (.success 0),
    .checkpoint ⟨16, 8, .ok, .ok, .failed 0⟩ ⟨.ok, true, .ok, true⟩,
    .receive bearingSample (.success 0), .finish (.success 1) ⟨.ok, .ok⟩]

/-- The second sample's record is then paired with the first sample's entry. -/
theorem lostAtCheckpoint_not_paired :
    ∃ s, Run step Free .start lostAtCheckpoint s ∧ s.closed = true ∧
      0 < (items recordSize s.writer.files.log.disk).length ∧
      0 < (items utcSize s.writer.files.utc.disk).length ∧ ∀ x ∈ s.taken, ¬ PairedAt s 0 x := by
  exact ⟨_, Run.of_exec_free rfl, rfl, by decide, by decide, by decide⟩

end BajaDaq.CompanionAlignment

import BajaDaq.SessionWriter

/-!
# The binary of one session

A block write that stops inside a record leaves the stream open, and a checkpoint keeps a block
of which it has already stored some records. Either can spoil the rest of the recording; this
module says which steps do.
-/

namespace BajaDaq.BinaryIntegrity
open FixedItems LogFiles SessionWriter StdioFiles TransitionRuns

/-- The binary, read as complete records, is an in-order subsequence of the samples taken. -/
def RecordsInOrder (s : Session) : Prop :=
  ∃ l : List QueuedSample, l.Sublist s.taken ∧
    items recordSize s.writer.files.log.disk = l.map recordBytes

/-- A step that completes a record in the binary starts at a record boundary, with a block
none of whose records is in the binary already. -/
def CompletesFreshRecord (s : Session) (e : Event) : Prop :=
  recordSize ≤ s.writer.files.log.contents.length % recordSize + e.accepted s.writer →
    s.writer.files.log.contents.length % recordSize = 0 ∧ s.stored = 0

instance (s : Session) (e : Event) : Decidable (CompletesFreshRecord s e) :=
  inferInstanceAs (Decidable (_ → _))

/-- The records in the binary come from the dropped samples and, of the private block, only
from its stored part. -/
def BinaryInvariant (s : Session) : Prop :=
  ∃ done l : List QueuedSample, s.taken = done ++ s.writer.block ∧
    l.Sublist (done ++ s.writer.block.take s.stored) ∧
    Encodes recordSize recordBytes l s.writer.files.log.contents

theorem binaryInvariant_start : BinaryInvariant .start :=
  ⟨[], [], rfl, List.Sublist.refl _, Encodes.nil recordSize_pos⟩

theorem binaryInvariant_step {s t : Session} {e : Event} (hI : BinaryInvariant s)
    (hC : CompletesFreshRecord s e) (h : step s e = some t) : BinaryInvariant t := by
  obtain ⟨hw, htaken, hstored⟩ := step_eq h
  obtain ⟨done, l, hdone, hsub, henc⟩ := hI
  have hpending : t.taken = done ++ e.pending s.writer := by
    rw [htaken, hdone, Event.pending, List.append_assoc]
  -- what the accepted bytes make of the binary before anything is lost
  obtain ⟨m, hm, hmsub⟩ : ∃ m, Encodes recordSize recordBytes m
      (s.writer.files.log.contents ++ acceptedPart s.writer e) ∧
      m.Sublist (done ++ (e.pending s.writer).take
        (max s.stored (e.accepted s.writer / recordSize))) := by
    by_cases hfull : recordSize ≤
        s.writer.files.log.contents.length % recordSize + e.accepted s.writer
    · obtain ⟨haligned, hfresh⟩ := hC hfull
      refine ⟨_, henc.append recordSize_pos length_recordBytes haligned (e.pending s.writer) _, ?_⟩
      rw [hfresh, List.take_zero, List.append_nil] at hsub
      rw [hfresh, Nat.zero_max]
      exact hsub.append (List.Sublist.refl _)
    · refine ⟨l, henc.append_short length_recordBytes (by rw [length_acceptedPart]; omega),
        hsub.trans ?_⟩
      refine (List.Sublist.refl done).append ?_
      have hle : s.stored ≤ max s.stored (e.accepted s.writer / recordSize) :=
        Nat.le_max_left _ _
      exact ((List.prefix_append _ _).take _).sublist.trans (List.take_sublist_take_left hle)
  obtain ⟨l', hl', henc'⟩ := hm.restrict recordSize_pos length_recordBytes (log_run s.writer e)
  rw [← hw] at henc'
  have hblock := block_run s.writer e
  rw [← hw] at hblock
  by_cases hempty : t.writer.block = []
  · have hall : l'.Sublist (done ++ e.pending s.writer) := hl'.sublist.trans
      (hmsub.trans ((List.Sublist.refl _).append (List.take_sublist _ _)))
    exact ⟨done ++ e.pending s.writer, l', by simpa [hempty] using hpending,
      by simpa [hempty] using hall, henc'⟩
  · have hkept : t.writer.block = e.pending s.writer := hblock.resolve_right hempty
    refine ⟨done, l', by rw [hpending, hkept], ?_, henc'⟩
    rw [hstored, if_neg hempty, hkept]
    exact hl'.sublist.trans hmsub

/-- Every run whose steps complete only fresh records keeps the binary in order. -/
theorem recordsInOrder_of_run {es : List Event} {s : Session}
    (h : Run step CompletesFreshRecord .start es s) : RecordsInOrder s := by
  obtain ⟨done, l, hdone, hsub, henc⟩ :=
    h.invariant binaryInvariant_start (fun _ _ _ => binaryInvariant_step)
  obtain ⟨l', hl', henc'⟩ :=
    henc.restrict recordSize_pos length_recordBytes (StdioFile.disk_prefix _)
  refine ⟨l', ?_, henc'.items_eq recordSize_pos length_recordBytes⟩
  rw [hdone]
  exact (hl'.sublist.trans hsub).trans
    ((List.Sublist.refl _).append (List.take_sublist _ _))

/-- The worked brake sample of the log format: 1500 psi at 1000 ms. -/
def brakeSample : QueuedSample := ⟨⟨AppProtocol.canIdFrontBrake, 8, 0x000003E8000005DC⟩, 0⟩

/-- Two samples are taken and the final write stops inside the second record. -/
def tornAtStop : List Event :=
  [.receive brakeSample (.success 0), .receive ⟨⟨0x0B9, 8, 0x000003E900000064⟩, 0⟩ (.success 0),
    .finish ⟨24, 8, .ok, .ok, .ok⟩ ⟨.ok, .ok⟩]

theorem tornAtStop_in_order :
    ∃ s, Run step CompletesFreshRecord .start tornAtStop s ∧ s.closed = true ∧
      RecordsInOrder s := by
  have h : Run step CompletesFreshRecord .start tornAtStop _ := Run.of_exec rfl
  exact ⟨_, h, rfl, recordsInOrder_of_run h⟩

/-- A checkpoint write stops after 8 bytes of the only record, and the stop writes the kept
block again. -/
def tornCheckpoint : List Event :=
  [.receive brakeSample (.success 0),
    .checkpoint ⟨8, 0, .ok, .ok, .ok⟩ ⟨.ok, true, .ok, true⟩,
    .finish (.success 1) ⟨.ok, .ok⟩]

/-- The binary then starts with a record made of two halves of the sample. -/
theorem tornCheckpoint_not_in_order :
    ∃ s, Run step Free .start tornCheckpoint s ∧ s.closed = true ∧ ¬ RecordsInOrder s := by
  refine ⟨_, Run.of_exec_free rfl, rfl, ?_⟩
  rintro ⟨l, hsub, hitems⟩
  rcases List.sublist_singleton.mp hsub with rfl | rfl
  · exact absurd hitems (by decide)
  · exact absurd hitems (by decide)

end BajaDaq.BinaryIntegrity

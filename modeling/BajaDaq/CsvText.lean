import BajaDaq.DecimalText
import BajaDaq.StreamSegments

/-!
# Lines of comma-separated values

A line is its cells joined with commas, and a carriage return and a line feed. A cell is plain if
it needs no quotes; the fields of a line of plain cells are its cells.
-/

namespace BajaDaq.CsvText
open DecimalText StreamSegments

def isPlain (c : Char) : Bool := c != ',' && c != '"' && c != '\r' && c != '\n'

def Plain (text : Text) : Prop := ∀ c ∈ text, isPlain c = true

instance (text : Text) : Decidable (Plain text) := List.decidableBAll _ text

def csvLine (cells : List Text) : Text := [','].intercalate cells ++ ['\r', '\n']

/-- A cell that is not plain is written in quotes, with the quotes in it doubled. -/
def writeCell (cell : Text) : Text :=
  if Plain cell then cell
  else '"' :: cell.flatMap (fun c => if c = '"' then ['"', '"'] else [c]) ++ ['"']

/-- A row as a CSV writer with minimal quoting writes it. -/
def writeRow (cells : List Text) : Text := csvLine (cells.map writeCell)

/-- The lines of a text that a line feed ends. -/
def lines (text : Text) : List Text := (ended '\n' text).map (fun line => line ++ ['\n'])

/-- The fields of a line without quotes. -/
def fields (line : Text) : List Text := (line.take (line.length - 2)).splitOn ','

theorem writeRow_of_plain {cells : List Text} (h : ∀ cell ∈ cells, Plain cell) :
    writeRow cells = csvLine cells := by
  have hcells : cells.map writeCell = cells := by
    calc cells.map writeCell = cells.map id :=
          List.map_congr_left fun cell hcell => if_pos (h cell hcell)
      _ = cells := List.map_id cells
  rw [writeRow, hcells]

theorem fields_csvLine {cells : List Text} (hne : cells ≠ []) (h : ∀ cell ∈ cells, Plain cell) :
    fields (csvLine cells) = cells := by
  have hline : (csvLine cells).take ((csvLine cells).length - 2) = [','].intercalate cells := by
    rw [csvLine, List.length_append]
    exact List.take_left
  rw [fields, hline, List.splitOn_intercalate ',' _ hne]
  intro cell hcell hcomma
  exact absurd (h cell hcell ',' hcomma) (by decide)

theorem lines_flatten {texts : List Text}
    (h : ∀ text ∈ texts, ∃ line, '\n' ∉ line ∧ text = line ++ ['\n']) :
    lines texts.flatten = texts := by
  induction texts with
  | nil => rfl
  | cons text texts ih =>
    obtain ⟨line, hline, rfl⟩ := h text List.mem_cons_self
    have hrest := ih fun text htext => h text (List.mem_cons_of_mem _ htext)
    rw [List.flatten_cons, List.append_assoc, List.singleton_append, lines,
      ended_append_segment hline, List.map_cons, ← lines, hrest]

/-- The line feed of a line of plain cells is at its end. -/
theorem csvLine_eq_line {cells : List Text} (h : ∀ cell ∈ cells, Plain cell) :
    ∃ line, '\n' ∉ line ∧ csvLine cells = line ++ ['\n'] := by
  refine ⟨[','].intercalate cells ++ ['\r'], ?_, by rw [csvLine, List.append_assoc]; rfl⟩
  have hcells : '\n' ∉ [','].intercalate cells := by
    induction cells with
    | nil => exact List.not_mem_nil
    | cons cell cells ih =>
      have hcell : '\n' ∉ cell := fun hc => absurd (h cell List.mem_cons_self _ hc) (by decide)
      cases cells with
      | nil => rwa [List.intercalate_singleton]
      | cons next cells =>
        have hrest := ih fun x hx => h x (List.mem_cons_of_mem _ hx)
        simp only [List.intercalate_cons_cons, List.mem_append, List.mem_singleton, hcell, hrest,
          or_false, false_or]
        decide
  intro hc
  rcases List.mem_append.mp hc with hc | hc
  · exact hcells hc
  · exact absurd (List.mem_singleton.mp hc) (by decide)

theorem plain_append {a b : Text} (ha : Plain a) (hb : Plain b) : Plain (a ++ b) := by
  intro c hc
  rcases List.mem_append.mp hc with hc | hc
  · exact ha c hc
  · exact hb c hc

theorem plain_cons {c : Char} {text : Text} (hc : isPlain c = true) (h : Plain text) :
    Plain (c :: text) := by
  intro x hx
  rcases List.mem_cons.mp hx with rfl | hx
  · exact hc
  · exact h x hx

theorem Plain.take {text : Text} (h : Plain text) (n : ℕ) : Plain (text.take n) :=
  fun c hc => h c (List.mem_of_mem_take hc)

theorem isPlain_of_isDigit {c : Char} (h : c.isDigit = true) : isPlain c = true := by
  have hne : ∀ x : Char, x.isDigit = false → c ≠ x := by
    rintro x hx rfl
    rw [h] at hx
    cases hx
  simp [isPlain, hne ',' (by decide), hne '"' (by decide), hne '\r' (by decide),
    hne '\n' (by decide)]

theorem plain_unsignedText (n : ℕ) : Plain (unsignedText n) :=
  fun _ hc => isPlain_of_isDigit (Nat.isDigit_of_mem_toDigits (by decide) (by decide) hc)

theorem plain_signedText (v : ℤ) : Plain (signedText v) := by
  refine plain_append ?_ (plain_unsignedText _)
  unfold signText
  split <;> decide

theorem plain_paddedText (w n : ℕ) : Plain (paddedText w n) := by
  refine plain_append (fun c hc => ?_) (plain_unsignedText n)
  rw [List.eq_of_mem_replicate hc]
  rfl

theorem plain_scaledText (p : ℕ) (v : ℤ) : Plain (scaledText p v) := by
  have hsign : Plain (signText v) := by
    unfold signText
    split <;> decide
  exact plain_append (plain_append hsign (plain_unsignedText _))
    (plain_cons rfl (plain_paddedText _ _))

theorem plain_hexText (w n : ℕ) : Plain (hexText w n) := by
  have hdigit : ∀ d < 16, isPlain (Nat.digitChar d).toUpper = true := by decide
  have hdigits : ∀ c ∈ Nat.toDigits 16 n, isPlain c.toUpper = true := by
    induction n using Nat.strongRecOn with
    | ind n ih =>
      rw [Nat.toDigits_eq_if (by decide)]
      intro c hc
      split at hc
      · rw [List.mem_singleton.mp hc]
        exact hdigit n ‹_›
      · rcases List.mem_append.mp hc with hc | hc
        · exact ih (n / 16) (by omega) c hc
        · rw [List.mem_singleton.mp hc]
          exact hdigit (n % 16) (Nat.mod_lt n (by decide))
  refine plain_append (fun c hc => ?_) (fun c hc => ?_)
  · rw [List.eq_of_mem_replicate hc]
    rfl
  · obtain ⟨d, hd, rfl⟩ := List.mem_map.mp hc
    exact hdigits d hd

end BajaDaq.CsvText

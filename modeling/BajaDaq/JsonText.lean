import BajaDaq.DecimalText
import Mathlib.Data.List.TakeWhile

/-!
# Compact JSON texts

Values without `null`, fractions or escapes, the text without blanks that they are written as, and
a parser that reads every such text back.
-/

namespace BajaDaq.JsonText
open DecimalText

/-- A character that a string holds as it is. -/
def isStringChar (c : Char) : Bool := c != '"' && c != '\\' && decide (32 ≤ c.toNat)

structure JsonString where
  text : Text
  plain : text.all isStringChar = true
  deriving DecidableEq

inductive Json where
  | bool (b : Bool)
  | number (n : ℤ)
  | string (s : JsonString)
  | array (items : List Json)
  | object (members : List (JsonString × Json))

def quoted (s : JsonString) : Text := '"' :: (s.text ++ ['"'])

def trueText : Text := "true".toList
def falseText : Text := "false".toList

/-- The rest of a list behind an item. -/
def after (close : Char) : List Text → Text
  | [] => [close]
  | item :: items => ',' :: (item ++ after close items)

def delimited (close : Char) : List Text → Text
  | [] => [close]
  | item :: items => item ++ after close items

mutual
def render : Json → Text
  | .bool true => trueText
  | .bool false => falseText
  | .number n => signedText n
  | .string s => quoted s
  | .array items => '[' :: delimited ']' (renderItems items)
  | .object members => '\x7b' :: delimited '\x7d' (renderMembers members)

def renderItems : List Json → List Text
  | [] => []
  | item :: items => render item :: renderItems items

def renderMembers : List (JsonString × Json) → List Text
  | [] => []
  | (key, value) :: members => (quoted key ++ ':' :: render value) :: renderMembers members
end

def renderMember (member : JsonString × Json) : Text :=
  quoted member.1 ++ ':' :: render member.2

section List
variable {α : Type*} (item : Text → Option (α × Text)) (close : Char)

def parseAfter : ℕ → Text → Option (List α × Text)
  | n + 1, c :: text =>
    if c = close then some ([], text)
    else if c = ',' then
      (item text).bind fun (a, text) => (parseAfter n text).map fun (as, text) => (a :: as, text)
    else none
  | _, _ => none

def parseDelimited (n : ℕ) (text : Text) : Option (List α × Text) :=
  if text.head? = some close then some ([], text.tail)
  else (item text).bind fun (a, text) =>
    (parseAfter item close n text).map fun (as, text) => (a :: as, text)

end List

/-- What follows the opening quote. -/
def parseString (text : Text) : Option (JsonString × Text) :=
  if (text.dropWhile isStringChar).head? = some '"' then
    some (⟨text.takeWhile isStringChar, List.all_takeWhile⟩, (text.dropWhile isStringChar).tail)
  else none

/-- Digits, with no zero in front of others. -/
def parseNumber (text : Text) : Option (ℕ × Text) :=
  let digits := text.takeWhile Char.isDigit
  if digits = [] ∨ digits.length ≠ 1 ∧ digits.head? = some '0' then none
  else some (Nat.ofDigitChars 10 digits 0, text.dropWhile Char.isDigit)

def parseMember (value : Text → Option (Json × Text)) (text : Text) :
    Option ((JsonString × Json) × Text) :=
  if text.head? = some '"' then
    (parseString text.tail).bind fun (key, text) =>
      if text.head? = some ':' then
        (value text.tail).map fun (v, text) => ((key, v), text)
      else none
  else none

/-- At most `n` levels. -/
def parseValue : ℕ → Text → Option (Json × Text)
  | n + 1, c :: text =>
    if c = '"' then (parseString text).map fun (s, text) => (.string s, text)
    else if c = '[' then
      (parseDelimited (parseValue n) ']' n text).map fun (items, text) => (.array items, text)
    else if c = '\x7b' then
      (parseDelimited (parseMember (parseValue n)) '\x7d' n text).map
        fun (members, text) => (.object members, text)
    else if c = '-' then (parseNumber text).map fun (v, text) => (.number (-v), text)
    else if c = 't' then (trueText.isPrefixOf? (c :: text)).map fun text => (.bool true, text)
    else if c = 'f' then (falseText.isPrefixOf? (c :: text)).map fun text => (.bool false, text)
    else (parseNumber (c :: text)).map fun (v, text) => (.number v, text)
  | _, _ => none

def parse (text : Text) : Option Json :=
  match parseValue text.length text with
  | some (value, []) => some value
  | _ => none

/-- A number cannot go on in `rest`. -/
def Ends (rest : Text) : Prop := ∀ c ∈ rest.head?, c.isDigit = false

theorem ends_nil : Ends [] := nofun

theorem ends_cons {c : Char} {rest : Text} (h : c.isDigit = false) : Ends (c :: rest) := by
  rintro x hx
  obtain rfl := Option.some.inj hx
  exact h

theorem renderItems_eq (items : List Json) : renderItems items = items.map render := by
  induction items with
  | nil => rfl
  | cons item items ih => rw [renderItems, ih, List.map_cons]

theorem renderMembers_eq (members : List (JsonString × Json)) :
    renderMembers members = members.map renderMember := by
  induction members with
  | nil => rfl
  | cons member members ih =>
    rw [renderMembers, ih, List.map_cons]
    rfl

theorem parseString_quoted (s : JsonString) (rest : Text) :
    parseString (s.text ++ '"' :: rest) = some (s, rest) := by
  have hplain := List.all_eq_true.mp s.plain
  have htake : (s.text ++ '"' :: rest).takeWhile isStringChar = s.text := by
    rw [List.takeWhile_append_of_pos hplain, List.takeWhile_cons, if_neg (by decide),
      List.append_nil]
  have hdrop : (s.text ++ '"' :: rest).dropWhile isStringChar = '"' :: rest := by
    rw [List.dropWhile_append_of_pos hplain, List.dropWhile_cons, if_neg (by decide)]
  rw [parseString, hdrop, List.head?_cons, if_pos rfl, List.tail_cons]
  simp only [htake]

theorem isDigit_unsignedText (n : ℕ) : ∀ c ∈ unsignedText n, c.isDigit = true :=
  fun _ hc => Nat.isDigit_of_mem_toDigits (by decide) (by decide) hc

theorem unsignedText_ne_nil (n : ℕ) : unsignedText n ≠ [] := Nat.toDigits_ne_nil

/-- The text of a positive number does not begin with a zero. -/
theorem head?_unsignedText {n : ℕ} (hn : 0 < n) : (unsignedText n).head? ≠ some '0' := by
  induction n using Nat.strongRecOn with
  | ind n ih =>
    rw [unsignedText, Nat.toDigits_eq_if (by decide)]
    split
    next hlt =>
      have hdigit : ∀ d < 10, 0 < d → Nat.digitChar d ≠ '0' := by decide
      simpa using hdigit n hlt hn
    next hge =>
      have hrest := ih (n / 10) (by omega) (by omega)
      cases htext : Nat.toDigits 10 (n / 10) with
      | nil => exact absurd htext Nat.toDigits_ne_nil
      | cons c digits =>
        rw [unsignedText, htext] at hrest
        simpa using hrest

theorem parseNumber_unsignedText (n : ℕ) {rest : Text} (h : Ends rest) :
    parseNumber (unsignedText n ++ rest) = some (n, rest) := by
  have hdigits := isDigit_unsignedText n
  have hstop : rest.takeWhile Char.isDigit = [] ∧ rest.dropWhile Char.isDigit = rest := by
    cases rest with
    | nil => exact ⟨rfl, rfl⟩
    | cons c rest =>
      have hc : ¬ c.isDigit = true := by simpa using h c rfl
      exact ⟨by rw [List.takeWhile_cons, if_neg hc], by rw [List.dropWhile_cons, if_neg hc]⟩
  have htake : (unsignedText n ++ rest).takeWhile Char.isDigit = unsignedText n := by
    rw [List.takeWhile_append_of_pos hdigits, hstop.1, List.append_nil]
  have hdrop : (unsignedText n ++ rest).dropWhile Char.isDigit = rest := by
    rw [List.dropWhile_append_of_pos hdigits, hstop.2]
  have hzero : ¬ (unsignedText n = [] ∨
      (unsignedText n).length ≠ 1 ∧ (unsignedText n).head? = some '0') := by
    rintro (hnil | ⟨hlength, hhead⟩)
    · exact unsignedText_ne_nil n hnil
    · rcases Nat.eq_zero_or_pos n with rfl | hn
      · exact hlength rfl
      · exact head?_unsignedText hn hhead
  simp only [parseNumber, htake, hdrop, if_neg hzero]
  rw [unsignedText, Nat.ofDigitChars_ten_toDigits]

section List
variable {α : Type*} {item : Text → Option (α × Text)} (close : Char) {write : α → Text}

/-- The items that were written are read one by one. -/
theorem parseAfter_after {as : List α} {n : ℕ} (hclose : close ≠ ',' ∧ close.isDigit = false)
    (hlength : as.length < n)
    (hitem : ∀ a ∈ as, ∀ rest, Ends rest → item (write a ++ rest) = some (a, rest)) (rest : Text) :
    parseAfter item close n (after close (as.map write) ++ rest) = some (as, rest) := by
  induction as generalizing n with
  | nil =>
    cases n with
    | zero => cases hlength
    | succ n => exact if_pos rfl
  | cons a as ih =>
    cases n with
    | zero => cases hlength
    | succ n =>
      have hends : Ends (after close (as.map write) ++ rest) := by
        cases as with
        | nil => exact ends_cons hclose.2
        | cons b as => exact ends_cons (by decide)
      have ha := hitem a List.mem_cons_self _ hends
      have has := @ih n (Nat.lt_of_succ_lt_succ hlength) fun b hb =>
        hitem b (List.mem_cons_of_mem a hb)
      rw [List.map_cons, after, List.cons_append, List.append_assoc, parseAfter,
        if_neg (Ne.symm hclose.1), if_pos rfl, ha]
      exact congrArg (Option.map _) has

theorem parseDelimited_delimited {as : List α} {n : ℕ}
    (hclose : close ≠ ',' ∧ close.isDigit = false) (hlength : as.length ≤ n)
    (hfirst : ∀ a ∈ as, ∀ rest, (write a ++ rest).head? ≠ some close)
    (hitem : ∀ a ∈ as, ∀ rest, Ends rest → item (write a ++ rest) = some (a, rest)) (rest : Text) :
    parseDelimited item close n (delimited close (as.map write) ++ rest) = some (as, rest) := by
  cases as with
  | nil => exact if_pos rfl
  | cons a as =>
    have hends : Ends (after close (as.map write) ++ rest) := by
      cases as with
      | nil => exact ends_cons hclose.2
      | cons b as => exact ends_cons (by decide)
    have ha := hitem a List.mem_cons_self _ hends
    have has := parseAfter_after close hclose (n := n) hlength
      (fun b hb => hitem b (List.mem_cons_of_mem a hb)) rest
    rw [List.map_cons, delimited, List.append_assoc, parseDelimited,
      if_neg (hfirst a List.mem_cons_self _), ha]
    exact congrArg (Option.map _) has

/-- An item is not longer than the text of its list, and neither is the number of items. -/
theorem length_after (write : α → Text) (as : List α) :
    as.length < (after close (as.map write)).length ∧
      ∀ a ∈ as, (write a).length < (after close (as.map write)).length := by
  induction as with
  | nil => simp [after]
  | cons first as ih =>
    simp only [List.map_cons, after, List.length_cons, List.length_append, List.mem_cons,
      forall_eq_or_imp]
    exact ⟨by omega, by omega, fun a ha => by have := ih.2 a ha; omega⟩

theorem length_delimited {as : List α} (hne : ∀ a ∈ as, write a ≠ []) :
    as.length ≤ (delimited close (as.map write)).length ∧
      ∀ a ∈ as, (write a).length ≤ (delimited close (as.map write)).length := by
  cases as with
  | nil => simp [delimited]
  | cons first as =>
    have hfirst := List.length_pos_iff.mpr (hne first List.mem_cons_self)
    have hafter := length_after close write as
    simp only [List.map_cons, delimited, List.length_cons, List.length_append, List.mem_cons,
      forall_eq_or_imp]
    exact ⟨by omega, by omega, fun a ha => by have := hafter.2 a ha; omega⟩

end List

/-- A text of digits is not empty and begins with one. -/
theorem unsignedText_eq_cons (n : ℕ) :
    ∃ c text, unsignedText n = c :: text ∧ c.isDigit = true := by
  cases htext : unsignedText n with
  | nil => exact absurd htext (unsignedText_ne_nil n)
  | cons c text => exact ⟨c, text, rfl, isDigit_unsignedText n c (by rw [htext]; simp)⟩

theorem ne_of_isDigit {c d : Char} (hc : c.isDigit = true) (hd : d.isDigit = false) : c ≠ d := by
  rintro rfl
  rw [hc] at hd
  cases hd

theorem render_eq_cons (v : Json) : ∃ c text, render v = c :: text ∧ c ≠ ']' := by
  cases v with
  | bool b =>
    cases b with
    | true => exact ⟨_, _, rfl, by decide⟩
    | false => exact ⟨_, _, rfl, by decide⟩
  | number n =>
    obtain ⟨c, text, htext, hc⟩ := unsignedText_eq_cons n.natAbs
    rw [render, signedText, signText, htext]
    split
    · exact ⟨'-', c :: text, rfl, by decide⟩
    · exact ⟨c, text, rfl, ne_of_isDigit hc (by decide)⟩
  | string s => exact ⟨'"', _, rfl, by decide⟩
  | array items => exact ⟨'[', _, rfl, by decide⟩
  | object members => exact ⟨'\x7b', _, rfl, by decide⟩

theorem render_ne_nil (v : Json) : render v ≠ [] := by
  obtain ⟨c, text, htext, -⟩ := render_eq_cons v
  simp [htext]

theorem head?_render (v : Json) (rest : Text) : (render v ++ rest).head? ≠ some ']' := by
  obtain ⟨c, text, htext, hc⟩ := render_eq_cons v
  simpa [htext] using hc

theorem parseMember_render {value : Text → Option (Json × Text)} {member : JsonString × Json}
    (h : ∀ rest, Ends rest → value (render member.2 ++ rest) = some (member.2, rest))
    {rest : Text} (hrest : Ends rest) :
    parseMember value (renderMember member ++ rest) = some (member, rest) := by
  have hquoted : renderMember member ++ rest =
      '"' :: (member.1.text ++ '"' :: ':' :: (render member.2 ++ rest)) := by
    simp [renderMember, quoted]
  rw [hquoted, parseMember, List.head?_cons, if_pos rfl, List.tail_cons, parseString_quoted,
    Option.bind_some]
  dsimp only
  rw [List.head?_cons, if_pos rfl, List.tail_cons, h rest hrest]
  rfl

theorem parseValue_number {n : ℕ} (m : ℤ) {rest : Text} (hrest : Ends rest) :
    parseValue (n + 1) (signedText m ++ rest) = some (.number m, rest) := by
  have hnumber := parseNumber_unsignedText m.natAbs hrest
  rw [signedText, signText]
  split
  next hneg =>
    have hvalue : -((m.natAbs : ℕ) : ℤ) = m := by omega
    rw [List.cons_append, List.nil_append, List.cons_append, parseValue, if_neg (by decide),
      if_neg (by decide), if_neg (by decide), if_pos rfl, hnumber]
    exact congrArg (fun value => some (Json.number value, rest)) hvalue
  next hpos =>
    have hvalue : ((m.natAbs : ℕ) : ℤ) = m := by omega
    obtain ⟨c, text, htext, hc⟩ := unsignedText_eq_cons m.natAbs
    rw [htext] at hnumber
    rw [List.nil_append, htext, List.cons_append, parseValue,
      if_neg (ne_of_isDigit hc (by decide)), if_neg (ne_of_isDigit hc (by decide)),
      if_neg (ne_of_isDigit hc (by decide)), if_neg (ne_of_isDigit hc (by decide)),
      if_neg (ne_of_isDigit hc (by decide)), if_neg (ne_of_isDigit hc (by decide)),
      ← List.cons_append, hnumber]
    exact congrArg (fun value => some (Json.number value, rest)) hvalue

/-- The induction is on the number of levels that the parser may open. -/
theorem parseValue_render {n : ℕ} {v : Json} (hv : (render v).length ≤ n) {rest : Text}
    (hrest : Ends rest) : parseValue n (render v ++ rest) = some (v, rest) := by
  induction n generalizing v rest with
  | zero => exact absurd (List.length_eq_zero_iff.mp (Nat.le_zero.mp hv)) (render_ne_nil v)
  | succ n ih =>
    cases v with
    | bool b =>
      cases b with
      | true => rfl
      | false => rfl
    | number m => exact parseValue_number m hrest
    | string s =>
      rw [render, quoted, List.cons_append, List.append_assoc, parseValue, if_pos rfl]
      exact congrArg (Option.map _) (parseString_quoted s rest)
    | array items =>
      rw [render, List.length_cons, renderItems_eq] at hv
      obtain ⟨hcount, hitem⟩ := length_delimited ']' fun v (_ : v ∈ items) => render_ne_nil v
      have hread : ∀ v ∈ items, ∀ rest, Ends rest →
          parseValue n (render v ++ rest) = some (v, rest) := by
        intro v hmem rest
        have hle := hitem v hmem
        exact ih (by omega)
      have hitems := parseDelimited_delimited ']' (by decide) (n := n) (by omega)
        (fun v _ => head?_render v) hread rest
      rw [render, renderItems_eq, List.cons_append, parseValue, if_neg (by decide), if_pos rfl]
      exact congrArg (Option.map _) hitems
    | object members =>
      rw [render, List.length_cons, renderMembers_eq] at hv
      have hne : ∀ member ∈ members, renderMember member ≠ [] := by
        simp [renderMember, quoted]
      obtain ⟨hcount, hmember⟩ := length_delimited '\x7d' hne
      have hread : ∀ member ∈ members, ∀ rest, Ends rest →
          parseMember (parseValue n) (renderMember member ++ rest) = some (member, rest) := by
        intro member hmem rest
        have hle := hmember member hmem
        rw [renderMember, List.length_append, List.length_cons] at hle
        exact parseMember_render fun rest => ih (by omega)
      have hitems := parseDelimited_delimited '\x7d' (by decide) (n := n) (by omega)
        (fun member _ rest => by simp [renderMember, quoted]) hread rest
      rw [render, renderMembers_eq, List.cons_append, parseValue, if_neg (by decide),
        if_neg (by decide), if_pos rfl]
      exact congrArg (Option.map _) hitems

theorem parse_render (v : Json) : parse (render v) = some v := by
  have h := parseValue_render (Nat.le_refl (render v).length) ends_nil
  rw [List.append_nil] at h
  rw [parse, h]

end BajaDaq.JsonText

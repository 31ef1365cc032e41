import Mathlib.Data.List.Infix
import Mathlib.Data.List.Flatten
import Mathlib.Tactic.Ring

/-!
# Byte strings read as items of one size

`items n bs` is what a loop of `fread(buffer, n, 1, file)` returns: the consecutive complete
blocks of `n` bytes, an incomplete one at the end being ignored.
-/

namespace BajaDaq.FixedItems

variable {α β : Type*}

def items (n : ℕ) (bs : List β) : List (List β) :=
  (List.range (bs.length / n)).map (fun k => (bs.drop (k * n)).take n)

@[simp] theorem length_items (n : ℕ) (bs : List β) : (items n bs).length = bs.length / n := by
  simp [items]

theorem items_short {n : ℕ} {bs : List β} (h : bs.length < n) : items n bs = [] := by
  simp [items, Nat.div_eq_of_lt h]

theorem length_of_mem_items {n : ℕ} {bs item : List β} (h : item ∈ items n bs) :
    item.length = n := by
  obtain ⟨k, hk, rfl⟩ := List.mem_map.mp h
  have hk : k < bs.length / n := List.mem_range.mp hk
  have hend : (k + 1) * n ≤ bs.length := by
    calc (k + 1) * n ≤ bs.length / n * n := Nat.mul_le_mul_right n hk
      _ ≤ bs.length := Nat.div_mul_le_self _ _
  rw [Nat.add_mul, Nat.one_mul] at hend
  rw [List.length_take, List.length_drop]
  omega

/-- `fread(buffer, n, 1, file)`: the item, if a complete one is left, and the unread bytes. An
incomplete item is consumed too. -/
def fread (n : ℕ) (bs : List β) : Option (List β) × List β :=
  (if n ≤ bs.length then some (bs.take n) else none, bs.drop n)

/-- The loop that reads items until `fread` fails. -/
theorem items_fread {n : ℕ} (hn : 0 < n) (bs : List β) : items n bs =
    (fread n bs).1.elim [] (fun item => item :: items n (fread n bs).2) := by
  rcases Nat.lt_or_ge bs.length n with h | h
  · rw [items_short h, fread, if_neg (by omega), Option.elim_none]
  · have hlen : bs.length / n = (bs.drop n).length / n + 1 := by
      rw [List.length_drop, ← Nat.div_eq_sub_div hn h]
    have hdrop : ∀ k, bs.drop ((k + 1) * n) = (bs.drop n).drop (k * n) := by
      intro k
      rw [List.drop_drop, Nat.add_mul, Nat.one_mul, Nat.add_comm]
    rw [fread, if_pos h, Option.elim_some, items, hlen, List.range_succ_eq_map, List.map_cons,
      List.map_map]
    congr 1
    · simp
    · exact List.map_congr_left (fun k _ => by simp only [Function.comp_apply, hdrop])

/-- One complete item in front of the rest. -/
theorem items_append {n : ℕ} (hn : 0 < n) {a : List β} (ha : a.length = n) (bs : List β) :
    items n (a ++ bs) = a :: items n bs := by
  have hfread : fread n (a ++ bs) = (some a, bs) := by simp [fread, ← ha]
  rw [items_fread hn, hfread, Option.elim_some]

/-- Encoded items come back, whatever incomplete rest follows them. -/
theorem items_flatMap {n : ℕ} (hn : 0 < n) {enc : α → List β} (henc : ∀ x, (enc x).length = n)
    (l : List α) {tail : List β} (ht : tail.length < n) :
    items n (l.flatMap enc ++ tail) = l.map enc := by
  induction l with
  | nil => simpa using items_short ht
  | cons x l ih => rw [List.flatMap_cons, List.append_assoc, items_append hn (henc x), ih]; rfl

theorem length_flatMap_const {n : ℕ} {enc : α → List β} (henc : ∀ x, (enc x).length = n)
    (l : List α) : (l.flatMap enc).length = l.length * n := by
  induction l with
  | nil => simp
  | cons x l ih => rw [List.flatMap_cons, List.length_append, ih, henc, List.length_cons]; ring

/-- A prefix of encoded items is some of the items and an incomplete one. -/
theorem take_flatMap {n : ℕ} (hn : 0 < n) {enc : α → List β} (henc : ∀ x, (enc x).length = n)
    (l : List α) (m : ℕ) :
    ∃ tail, tail.length < n ∧
      (l.flatMap enc).take m = (l.take (m / n)).flatMap enc ++ tail := by
  induction l generalizing m with
  | nil => exact ⟨[], hn, by simp⟩
  | cons x l ih =>
    rcases Nat.lt_or_ge m n with hm | hm
    · refine ⟨(enc x).take m, by simp [henc, hm], ?_⟩
      rw [Nat.div_eq_of_lt hm, List.flatMap_cons,
        List.take_append_of_le_length (by rw [henc]; exact hm.le)]
      simp
    · obtain ⟨tail, ht, htake⟩ := ih (m - n)
      refine ⟨tail, ht, ?_⟩
      have hdiv : m / n = (m - n) / n + 1 := by
        rw [← Nat.add_div_right _ hn, Nat.sub_add_cancel hm]
      rw [List.flatMap_cons, List.take_append, henc,
        List.take_of_length_le (by rw [henc]; exact hm), htake, hdiv, List.take_succ_cons,
        List.flatMap_cons, List.append_assoc]

/-- The bytes are the encoded items of `l` followed by less than one item. -/
def Encodes (n : ℕ) (enc : α → List β) (l : List α) (bs : List β) : Prop :=
  ∃ tail, tail.length < n ∧ bs = l.flatMap enc ++ tail

namespace Encodes

variable {n : ℕ} {enc : α → List β} {l : List α} {bs cs : List β}

theorem nil (hn : 0 < n) : Encodes n enc [] ([] : List β) := ⟨[], hn, rfl⟩

theorem of_eq (hn : 0 < n) (h : bs = l.flatMap enc) : Encodes n enc l bs :=
  ⟨[], hn, by simpa using h⟩

theorem items_eq (hn : 0 < n) (henc : ∀ x, (enc x).length = n) (h : Encodes n enc l bs) :
    items n bs = l.map enc := by
  obtain ⟨tail, ht, rfl⟩ := h
  exact items_flatMap hn henc l ht

theorem length_mod (henc : ∀ x, (enc x).length = n) {tail : List β}
    (ht : tail.length < n) : (l.flatMap enc ++ tail).length % n = tail.length := by
  rw [List.length_append, length_flatMap_const henc, Nat.add_comm, Nat.add_mul_mod_self_right,
    Nat.mod_eq_of_lt ht]

theorem length_div (hn : 0 < n) (henc : ∀ x, (enc x).length = n) (h : Encodes n enc l bs) :
    bs.length / n = l.length := by
  have := congrArg List.length (h.items_eq hn henc)
  simpa using this

/-- A prefix of the bytes encodes a prefix of the items. -/
theorem restrict (hn : 0 < n) (henc : ∀ x, (enc x).length = n) (h : Encodes n enc l bs)
    (hcs : cs <+: bs) : ∃ l', l' <+: l ∧ Encodes n enc l' cs := by
  obtain ⟨tail, ht, rfl⟩ := h
  rw [List.prefix_iff_eq_take.mp hcs, List.take_append]
  rcases Nat.lt_or_ge cs.length (l.flatMap enc).length with hlt | hge
  · obtain ⟨rest, hr, htake⟩ := take_flatMap hn henc l cs.length
    refine ⟨l.take (cs.length / n), List.take_prefix _ _, rest, hr, ?_⟩
    rw [htake, Nat.sub_eq_zero_of_le hlt.le, List.take_zero, List.append_nil]
  · refine ⟨l, List.prefix_rfl, _, ?_, by rw [List.take_of_length_le hge]⟩
    exact (List.length_take_le' _ _).trans_lt ht

/-- Bytes of further items appended at an item boundary. -/
theorem append (hn : 0 < n) (henc : ∀ x, (enc x).length = n) (h : Encodes n enc l bs)
    (hb : bs.length % n = 0) (x : List α) (a : ℕ) :
    Encodes n enc (l ++ x.take (a / n)) (bs ++ (x.flatMap enc).take a) := by
  obtain ⟨tail, ht, rfl⟩ := h
  rw [length_mod henc ht, List.length_eq_zero_iff] at hb
  obtain ⟨rest, hr, htake⟩ := take_flatMap hn henc x a
  exact ⟨rest, hr, by simp [hb, htake]⟩

/-- Bytes that do not complete the item they are appended to. -/
theorem append_short (henc : ∀ x, (enc x).length = n) (h : Encodes n enc l bs)
    (hs : bs.length % n + cs.length < n) : Encodes n enc l (bs ++ cs) := by
  obtain ⟨tail, ht, rfl⟩ := h
  rw [length_mod henc ht] at hs
  exact ⟨tail ++ cs, by simpa using hs, by simp⟩

end Encodes

/-- Items that lie within a leading part of the bytes do not depend on the rest. -/
theorem take_items {n : ℕ} (bs : List β) {k m : ℕ} (h : k * n ≤ m) :
    (items n bs).take k = (items n (bs.take m)).take k := by
  rcases Nat.eq_zero_or_pos n with rfl | hn
  · simp [items]
  have hk : k ≤ m / n := (Nat.le_div_iff_mul_le hn).mpr h
  have hlen : min k ((bs.take m).length / n) = min k (bs.length / n) := by
    rw [List.length_take]
    rcases Nat.le_total m bs.length with hm | hm
    · rw [Nat.min_eq_left hm]
      have := Nat.div_le_div_right (c := n) hm
      omega
    · rw [Nat.min_eq_right hm]
  simp only [items, ← List.map_take, List.take_range, hlen]
  apply List.map_congr_left
  intro j hj
  have hj : j < k := by simp at hj; omega
  have hjn : (j + 1) * n ≤ m := (Nat.mul_le_mul_right n hj).trans h
  rw [List.drop_take, List.take_take, Nat.min_eq_left]
  rw [Nat.add_mul, Nat.one_mul] at hjn
  omega

/-- An item inside a leading part that holds encoded items is one of them. -/
theorem Encodes.getElem?_items {n : ℕ} (hn : 0 < n) {enc : α → List β}
    (henc : ∀ x, (enc x).length = n) {l : List α} {bs : List β} {m k : ℕ}
    (h : Encodes n enc l (bs.take m)) (hk : k < (items n bs).length) (hm : (k + 1) * n ≤ m) :
    ∃ x, l[k]? = some x ∧ (items n bs)[k]? = some (enc x) := by
  rw [length_items] at hk
  have hlen : k < l.length := by
    rw [← h.length_div hn henc, List.length_take]
    have hkm : k < m / n := (Nat.le_div_iff_mul_le hn).mpr hm
    rcases Nat.le_total m bs.length with hle | hle
    · rwa [Nat.min_eq_left hle]
    · rwa [Nat.min_eq_right hle]
  refine ⟨l[k], List.getElem?_eq_getElem hlen, ?_⟩
  have hitem : (items n bs)[k]? = (l.map enc)[k]? := by
    have h₁ := congrArg (fun q => q[k]?) (take_items (n := n) bs (k := k + 1) hm)
    rw [h.items_eq hn henc] at h₁
    simpa [List.getElem?_take] using h₁
  rw [hitem, List.getElem?_map, List.getElem?_eq_getElem hlen]
  rfl

/-- The first items put together again. -/
theorem flatten_take_items {n : ℕ} (hn : 0 < n) (bs : List β) (k : ℕ) :
    ((items n bs).take k).flatten = bs.take (n * ((items n bs).take k).length) := by
  induction k generalizing bs with
  | zero => simp
  | succ k ih =>
    rw [items_fread hn, fread]
    dsimp only
    by_cases h : n ≤ bs.length
    · have hlength : (bs.take n).length = n := by rw [List.length_take, Nat.min_eq_left h]
      rw [if_pos h, Option.elim_some, List.take_succ_cons, List.flatten_cons, List.length_cons, ih,
        Nat.mul_add, Nat.mul_one, Nat.add_comm, List.take_add]
    · rw [if_neg h]
      simp

/-- What a loop of `fread(buffer, 1, n, file)` returns until a call returns nothing: the
consecutive blocks of `n` bytes and the shorter one at the end. -/
def pieces (n : ℕ) (bs : List β) : List (List β) :=
  (List.range ((bs.length + (n - 1)) / n)).map (fun k => (bs.drop (k * n)).take n)

theorem pieces_nil {n : ℕ} (hn : 0 < n) : pieces n ([] : List β) = [] := by
  rw [pieces, List.length_nil, Nat.zero_add, Nat.div_eq_of_lt (by omega)]
  rfl

/-- The loop that reads until nothing is left. -/
theorem pieces_fread {n : ℕ} (hn : 0 < n) {bs : List β} (h : bs ≠ []) :
    pieces n bs = bs.take n :: pieces n (bs.drop n) := by
  have hpos := List.length_pos_iff.mpr h
  have hcount : (bs.length + (n - 1)) / n = ((bs.drop n).length + (n - 1)) / n + 1 := by
    rw [List.length_drop, ← Nat.add_div_right _ hn]
    rcases Nat.le_total n bs.length with hle | hle
    · congr 1
      omega
    · have hone : bs.length + (n - 1) = bs.length - 1 + n := by omega
      have hdone : bs.length - n + (n - 1) + n = (n - 1) + n := by omega
      rw [hone, hdone, Nat.add_div_right _ hn, Nat.add_div_right _ hn,
        Nat.div_eq_of_lt (by omega), Nat.div_eq_of_lt (by omega)]
  have hdrop : ∀ k, bs.drop ((k + 1) * n) = (bs.drop n).drop (k * n) := by
    intro k
    rw [List.drop_drop, Nat.add_mul, Nat.one_mul, Nat.add_comm]
  rw [pieces, hcount, List.range_succ_eq_map, List.map_cons, List.map_map, Nat.zero_mul,
    List.drop_zero, pieces]
  exact congrArg _ (List.map_congr_left fun k _ => by simp only [Function.comp_apply, hdrop])

theorem flatten_pieces {n : ℕ} (hn : 0 < n) (bs : List β) : (pieces n bs).flatten = bs := by
  induction hl : bs.length using Nat.strongRecOn generalizing bs with
  | ind length ih =>
    by_cases h : bs = []
    · rw [h, pieces_nil hn, List.flatten_nil]
    · have hpos := List.length_pos_iff.mpr h
      have hshort : (bs.drop n).length < length := by
        rw [List.length_drop]
        omega
      rw [pieces_fread hn h, List.flatten_cons, ih _ hshort (bs.drop n) rfl,
        List.take_append_drop]

theorem pieces_ne_nil {n : ℕ} {bs piece : List β} (h : piece ∈ pieces n bs) : piece ≠ [] := by
  obtain ⟨k, hk, rfl⟩ := List.mem_map.mp h
  have hk : k < (bs.length + (n - 1)) / n := List.mem_range.mp hk
  have hn : 0 < n := by
    rcases Nat.eq_zero_or_pos n with rfl | hn
    · rw [Nat.div_zero] at hk
      omega
    · exact hn
  have hstart : (k + 1) * n ≤ bs.length + (n - 1) := (Nat.le_div_iff_mul_le hn).mp hk
  rw [Nat.add_mul, Nat.one_mul] at hstart
  apply List.ne_nil_of_length_pos
  rw [List.length_take, List.length_drop]
  omega

end BajaDaq.FixedItems
